import AgentSaas.Runs.CancelDelivery
import AgentSaas.Proofs.InterleavingSafety
import AgentSaas.Proofs.InvocationStores
import AgentSaas.Splitting

/-! The cancellation of an invocation has one owner at a time and one end. What an owner writes is read
from the row that it claimed, and nobody else writes it while the claim stands. -/

namespace AgentSaas.Proofs.CancelDelivery
open Runs Dictionaries Interleaving InterleavingSafety AgentSaas.CancelDelivery
open AgentSaas.InvocationStores hiding Call
open Splitting (split_concat)
open ToolInvocations (ToolInvocationStatus Invocation StartToolInvocationInput excluded conflictRow conflictMetadata completion
  cancelOnce releaseDelivery claimedMetadata startMetadata)

def isFailure : OutcomeKind → Bool
  | .retryScheduled | .deadLetter => true
  | _ => false

/-- The outcomes that `cancelDeliveryAttempts` counts: those of an attempt. -/
def isAttempt : OutcomeKind → Bool
  | .runAbortOnly | .missingAuthToken => false
  | _ => true

def attemptsOf (outcomes : List Outcome) (invocationId : String) : Int :=
  outcomes.countP fun outcome => outcome.invocationId = invocationId && isAttempt outcome.kind

/-- Of two claims of one invocation the first has ended or expired. -/
def Succeeds (clock : Int) (first second : Claim) : Prop :=
  first.invocationId = second.invocationId → first.ended ∨ first.expiresAt ≤ clock

structure Orderly (shared : Shared) : Prop where
  owners : shared.claims.Pairwise (Succeeds shared.clock)
  holders : ∀ outcome ∈ shared.outcomes, outcome.current = some outcome.claimId
  attempts : ∀ invocationId row, shared.rows.get invocationId = some row →
    getAttemptCount row.metadata = attemptsOf shared.outcomes invocationId
  deadLetters : ∀ before outcome after, shared.outcomes = before ++ outcome :: after → isFailure outcome.kind →
    (outcome.kind = .deadLetter ↔ outcome.maxAttempts ≤ attemptsOf before outcome.invocationId + 1)
  ends : ∀ before outcome after, shared.outcomes = before ++ outcome :: after → outcome.kind.isTerminal →
    ∀ later ∈ after, later.invocationId ≠ outcome.invocationId
  delivered : ∀ invocationId row, shared.rows.get invocationId = some row →
    (row.cancelDeliveredAt.isSome ↔ ∃ outcome ∈ shared.outcomes, outcome.invocationId = invocationId ∧ outcome.kind.isTerminal)

/-- What has been delivered stays so: its request is not cleared and nothing more is recorded of it. -/
def Final (shared after : Shared) : Prop :=
  ∀ invocationId row, shared.rows.get invocationId = some row → row.cancelDeliveredAt.isSome →
    (∃ later, after.rows.get invocationId = some later ∧ later.cancelDeliveredAt.isSome ∧ later.cancelRequestedAt.isSome) ∧
      after.outcomesOf invocationId = shared.outcomesOf invocationId

/-- What is written as a time is read as no other time. -/
def Lawful (dates : Dates) : Prop :=
  ∀ time text read, dates.toISOString time = some text → dates.timestamptz text = some read → read = time

structure RowValid (dates : Dates) (clock : Int) (claims : List Claim) (outcomes : List Outcome) (invocationId : String)
    (row : Invocation) : Prop where
  fresh : row.cancelRequestedAt = none → Clean row.metadata
  asked : row.cancelDeliveredAt.isSome → row.cancelRequestedAt.isSome
  released : row.cancelDeliveredAt.isSome → row.metadata "cancelDeliveryClaimId" = none
  current : ∀ value, row.metadata "cancelDeliveryClaimId" = some value →
    ∃ claim, (claims.filter (·.invocationId = invocationId)).getLast? = some claim ∧ value = .text claim.claimId
  held : ∀ claim ∈ claims, claim.invocationId = invocationId → claim.ended = false →
    claim.expiresAt ≤ clock ∨
      row.metadata "cancelDeliveryClaimId" = some (.text claim.claimId) ∧
        ∃ text, row.metadata "cancelDeliveryClaimExpiresAt" = some (.text text) ∧ dates.toISOString claim.expiresAt = some text
  attempts : getAttemptCount row.metadata = attemptsOf outcomes invocationId
  delivered : row.cancelDeliveredAt.isSome ↔
    ∃ outcome ∈ outcomes, outcome.invocationId = invocationId ∧ outcome.kind.isTerminal

structure Valid (dates : Dates) (shared : Shared) : Prop where
  owners : shared.claims.Pairwise (Succeeds shared.clock)
  holders : ∀ outcome ∈ shared.outcomes, outcome.current = some outcome.claimId
  deadLetters : ∀ before outcome after, shared.outcomes = before ++ outcome :: after → isFailure outcome.kind →
    (outcome.kind = .deadLetter ↔ outcome.maxAttempts ≤ attemptsOf before outcome.invocationId + 1)
  ends : ∀ before outcome after, shared.outcomes = before ++ outcome :: after → outcome.kind.isTerminal →
    ∀ later ∈ after, later.invocationId ≠ outcome.invocationId
  rows : ∀ invocationId row, shared.rows.get invocationId = some row →
    RowValid dates shared.clock shared.claims shared.outcomes invocationId row
  absent : ∀ invocationId, shared.rows.get invocationId = none →
    (∀ claim ∈ shared.claims, claim.invocationId ≠ invocationId) ∧
      ∀ outcome ∈ shared.outcomes, outcome.invocationId ≠ invocationId
  events : ∀ event ∈ shared.events, Clean event.metadata

theorem Valid.orderly {dates : Dates} {shared : Shared} (valid : Valid dates shared) : Orderly shared where
  owners := valid.owners
  holders := valid.holders
  attempts invocationId row found := (valid.rows invocationId row found).attempts
  deadLetters := valid.deadLetters
  ends := valid.ends
  delivered invocationId row found := (valid.rows invocationId row found).delivered

theorem valid_initial (dates : Dates) (clock : Int) : Valid dates (.initial clock) where
  owners := .nil
  holders _ member := by cases member
  deadLetters before outcome after same := by simp [Shared.initial] at same
  ends before outcome after same := by simp [Shared.initial] at same
  rows _ _ found := by cases found
  absent _ _ := ⟨by simp [Shared.initial], by simp [Shared.initial]⟩
  events _ member := by cases member

/-! A mark fits the number of attempts that its owner has read. -/

structure Fits (attempts : Int) (mark : Mark) : Prop where
  keys : ∀ key ∈ claimKeys, mark.patch key = none
  counted : mark.patch "cancelDeliveryAttempts" = if isAttempt mark.kind then some (.number (attempts + 1)) else none
  deadLetter : isFailure mark.kind → (mark.kind = .deadLetter ↔ mark.maxAttempts ≤ attempts + 1)

theorem getAttemptCount_nonneg (metadata : Metadata) : 0 ≤ getAttemptCount metadata := by
  unfold getAttemptCount
  split
  next attempts _ =>
    split
    next nonneg => exact nonneg
    next => exact Int.le_refl 0
  next => exact Int.le_refl 0

/-- What a mark begins with has none of the keys that a claim needs, nor a count of its own. -/
def Plain (extra : Metadata) : Prop := ∀ key ∈ claimKeys, extra key = none

variable {dates : Dates} {record : Metadata} {now : Int} {nowText reason : String} {extra : Metadata} {options : DeliveryOptions}
  {mark : Mark}

theorem plain_put {key : String} (plain : Plain extra) (other : key ∉ claimKeys) (value : Json) : Plain (extra.put key value) := by
  intro claimed member
  have apart : claimed ≠ key := by
    rintro rfl
    exact other member
  rw [Metadata.put_other extra value apart]
  exact plain claimed member

theorem plain_putSome {key : String} (plain : Plain extra) (other : key ∉ claimKeys) (value : Option Json) :
    Plain (putSome extra key value) := by
  cases value with
  | none => exact plain
  | some value => exact plain_put plain other value

theorem plain_empty : Plain .empty := fun _ _ => rfl

theorem fits_build (plain : Plain extra)
    (built : buildAttemptMetadata dates record now nowText reason extra options = some mark) :
    Fits (getAttemptCount record) mark := by
  unfold buildAttemptMetadata at built
  simp only at built
  split at built
  next reached =>
    obtain rfl := Option.some.inj built
    constructor
    · repeat apply plain_put _ (by decide)
      exact plain
    · rfl
    · exact fun _ => ⟨fun _ => reached, fun _ => rfl⟩
  next short =>
    obtain ⟨next, -, rfl⟩ := Option.map_eq_some_iff.mp built
    constructor
    · repeat apply plain_put _ (by decide)
      exact plain
    · rfl
    · intro
      constructor
      · intro dead
        cases dead
      · exact fun reached => absurd reached short

theorem fits_final {kind : OutcomeKind} (attempts : Int) (plain : Plain extra) (final : isFailure kind = false)
    (counted : extra "cancelDeliveryAttempts" = if isAttempt kind then some (.number (attempts + 1)) else none) :
    Fits attempts (finalMark kind extra options) where
  keys := by
    repeat apply plain_put _ (by decide)
    exact plain
  counted := counted
  deadLetter failed := by
    rw [show (finalMark kind extra options).kind = kind from rfl, final] at failed
    cases failed

structure Prepared (attempts : Int) (attemptMetadata : Metadata) : Prop where
  plain : Plain attemptMetadata
  counted : attemptMetadata "cancelDeliveryAttempts" = some (.number (attempts + 1))

theorem prepared_base (plain : Plain extra) : Prepared (getAttemptCount record) (baseAttemptMetadata record nowText extra) where
  plain := by
    repeat apply plain_put _ (by decide)
    exact plain
  counted := rfl

def FitsNext (attempts : Int) : Next → Prop
  | .mark mark => Fits attempts mark
  | .fetch attemptMetadata => Prepared attempts attemptMetadata

theorem putSome_other {key other : String} (value : Option Json) (apart : other ≠ key) :
    putSome extra key value other = extra other := by
  cases value with
  | none => rfl
  | some value => exact Metadata.put_other extra value apart

theorem fits_afterClaim {delivery : Delivery} {preflight : Preflight} {claimed : Invocation} {next : Next}
    (followed : delivery.afterClaim dates preflight claimed = some next) :
    FitsNext (getAttemptCount claimed.metadata) next := by
  have named (value : Option Json) : Plain (putSome .empty "handId" value) := plain_putSome plain_empty (by decide) value
  unfold Delivery.afterClaim at followed
  simp only at followed
  split at followed
  next =>
    obtain ⟨text, -, wrapped⟩ := Option.bind_eq_some_iff.mp followed
    obtain ⟨mark, built, rfl⟩ := Option.map_eq_some_iff.mp wrapped
    apply fits_build _ built
    repeat apply plain_put _ (by decide)
    exact plain_empty
  next =>
    split at followed
    next =>
      obtain rfl := Option.some.inj followed
      apply fits_final
      · apply plain_put _ (by decide)
        exact named _
      · rfl
      · rw [Metadata.put_other _ _ (by decide), putSome_other _ (by decide)]
        rfl
    next =>
      split at followed
      next =>
        obtain rfl := Option.some.inj followed
        apply fits_final
        · apply plain_putSome _ (by decide)
          apply plain_put _ (by decide)
          exact named _
        · rfl
        · rw [putSome_other _ (by decide), Metadata.put_other _ _ (by decide), putSome_other _ (by decide)]
          rfl
      next =>
        obtain ⟨text, -, rfl⟩ := Option.map_eq_some_iff.mp followed
        apply prepared_base
        apply plain_putSome _ (by decide)
        apply plain_put _ (by decide)
        exact named _

theorem fits_afterFetch {delivery : Delivery} {claimed : Invocation} {attemptMetadata : Metadata} {response : Response}
    (prepared : Prepared (getAttemptCount claimed.metadata) attemptMetadata)
    (followed : delivery.afterFetch dates claimed attemptMetadata response = some mark) :
    Fits (getAttemptCount claimed.metadata) mark := by
  obtain ⟨text, -, followed⟩ := Option.bind_eq_some_iff.mp followed
  simp only at followed
  split at followed
  next =>
    exact fits_build (plain_put prepared.plain (by decide) _) followed
  next ok status cancelled =>
    split at followed
    next =>
      split at followed
      next =>
        apply fits_build _ followed
        repeat apply plain_put _ (by decide)
        exact prepared.plain
      next =>
        obtain rfl := Option.some.inj followed
        apply fits_final
        · apply plain_putSome _ (by decide)
          exact plain_put prepared.plain (by decide) _
        · split <;> rfl
        · rw [putSome_other _ (by decide), Metadata.put_other _ _ (by decide), prepared.counted]
          split <;> rfl
    next => exact fits_build (plain_put prepared.plain (by decide) _) followed

/-- A statement that is no part of a delivery: it leaves the keys and the end of the deliveries alone. -/
structure Quiet (row after : Invocation) : Prop where
  keys : ∀ key ∈ ownerKeys, after.metadata key = row.metadata key
  delivered : after.cancelDeliveredAt = row.cancelDeliveredAt
  requested : row.cancelRequestedAt.isSome → after.cancelRequestedAt.isSome

theorem Quiet.refl (row : Invocation) : Quiet row row := ⟨fun _ _ => rfl, rfl, id⟩

/-- The row of an invocation before and after a statement that makes none and ends none. -/
def Kept : Option Invocation → Option Invocation → Prop
  | none, none => True
  | some row, some after => Quiet row after
  | _, _ => False

theorem kept_refl (row : Option Invocation) : Kept row row := by
  cases row with
  | none => trivial
  | some row => exact .refl row

theorem kept_update {existing : Option Invocation} (test : Invocation → Bool) (change : Invocation → Invocation)
    (quiet : ∀ row, Quiet row (change row)) : Kept existing (update existing ((existing.filter test).map change)).stored := by
  cases existing with
  | none => trivial
  | some row =>
    cases tested : test row with
    | true =>
      rw [Option.filter_some_pos tested]
      exact quiet row
    | false =>
      rw [Option.filter_some_neg tested]
      exact .refl row

theorem merge_clean {metadata patch : Metadata} (clean : Clean patch) {key : String} (member : key ∈ ownerKeys) :
    metadata.merge patch key = metadata key := by
  rw [Proofs.InvocationStores.merge_apply, clean key member, Option.none_or]

theorem isSome_orElse {first second : Option Int} (some : first.isSome) : (first <|> second).isSome := by
  cases first with
  | none => cases some
  | some time => rfl

theorem kept_requestCancel {existing : Option Invocation} {reason : Option String} {metadataPatch : Metadata} {now : Int}
    (clean : Clean metadataPatch) : Kept existing (Pg.requestCancel existing reason metadataPatch now).stored := by
  cases existing with
  | none => trivial
  | some row => exact ⟨fun key member => merge_clean clean member, rfl, isSome_orElse⟩

theorem kept_requestCancelOnce {existing : Option Invocation} {reason : Option String} {metadataPatch : Metadata} {now : Int}
    (clean : Clean metadataPatch) : Kept existing (Pg.requestCancelOnce existing reason metadataPatch now).stored := by
  unfold Pg.requestCancelOnce
  split
  next row wrote =>
    obtain ⟨before, found, rfl⟩ := Option.map_eq_some_iff.mp wrote
    obtain ⟨rfl, -⟩ := Option.filter_eq_some_iff.mp found
    exact ⟨fun key member => merge_clean clean member, rfl, fun _ => rfl⟩
  next => exact kept_refl existing

theorem kept_complete {existing : Option Invocation} {status : ToolInvocationStatus} {error : Option String} {run : Run}
    {now : Int} : Kept existing (Pg.complete (fun _ => some run) existing status error now).stored := by
  cases existing with
  | none => trivial
  | some row =>
    apply kept_update
    intro row
    constructor
    · intro key member
      simp only [completion]
      split
      next =>
        apply Metadata.put_other
        rintro rfl
        exact absurd member (by decide)
      next => rfl
    · rfl
    · intro requested
      simp only [completion]
      split
      next => exact isSome_orElse requested
      next => exact requested

theorem claimedMetadata_other (metadata : Metadata) (worker : Option String) (now : Int) {key : String} (member : key ∈ ownerKeys) :
    claimedMetadata metadata worker now key = metadata key := by
  have first : key ≠ "invokeClaimedAt" := by
    rintro rfl
    exact absurd member (by decide)
  have second : key ≠ "invokeClaimedByWorkerId" := by
    rintro rfl
    exact absurd member (by decide)
  unfold claimedMetadata
  cases worker <|> metadata.text "workerId" with
  | none => exact Metadata.put_other _ _ first
  | some worker => exact (Metadata.put_other _ _ second).trans (Metadata.put_other _ _ first)

theorem kept_invoke (shared : Shared) (invocationId : String) (worker : Option String) :
    Kept (shared.rows.get invocationId) (shared.invoke invocationId worker).stored := by
  apply kept_update
  intro row
  exact ⟨fun key member => claimedMetadata_other row.metadata worker _ member, rfl, id⟩

theorem clean_startMetadata {metadata : Metadata} (clean : Clean metadata) (run : Run) : Clean (startMetadata metadata run) := by
  intro key member
  have first : key ≠ "terminalRunStatus" := by
    rintro rfl
    exact absurd member (by decide)
  have second : key ≠ "cancelRecovery" := by
    rintro rfl
    exact absurd member (by decide)
  unfold startMetadata
  split
  next =>
    rw [Metadata.put_other _ _ second]
    split
    next =>
      rw [Metadata.put_other _ _ first]
      exact clean key member
    next => exact clean key member
  next =>
    split
    next =>
      rw [Metadata.put_other _ _ first]
      exact clean key member
    next => exact clean key member

theorem quiet_conflictRow (given : Bool) {proposed row : Invocation} (clean : Clean proposed.metadata) :
    Quiet row (conflictRow given proposed row) where
  keys key member := by
    have applied := Proofs.InvocationStores.conflictMetadata_apply row proposed.metadata key
    rw [clean key member, Option.none_or, ite_self] at applied
    exact applied
  delivered := rfl
  requested requested := by
    simp only [conflictRow]
    split
    next => exact isSome_orElse requested
    next => exact requested

/-! What calls rely on, and what a step leaves to the others. -/

def claimIdOf : Call → Option String
  | .resolving delivery | .claiming delivery .. | .fetching delivery .. | .marking delivery _ => some delivery.claimId
  | _ => none

/-- While the claim stands, the row has the number of attempts that its owner has read. -/
def Holding (shared : Shared) (invocationId claimId : String) (attempts : Int) : Prop :=
  ∀ row, shared.rows.get invocationId = some row → row.metadata "cancelDeliveryClaimId" = some (.text claimId) →
    getAttemptCount row.metadata = attempts

def Asserted (shared : Shared) : Call → Prop
  | .start input _ => Clean input.metadata
  | .request _ _ metadataPatch => Clean metadataPatch
  | .publish event | .deliverToolInvocationCancel event _ => Clean event.metadata
  | .resolving delivery => delivery.claimId ∈ shared.drawn
  | .claiming delivery _ now => delivery.claimId ∈ shared.drawn ∧ now ≤ shared.clock
  | .fetching delivery claimed attemptMetadata =>
    delivery.claimId ∈ shared.drawn ∧
      Holding shared delivery.invocationId delivery.claimId (getAttemptCount claimed.metadata) ∧
      Prepared (getAttemptCount claimed.metadata) attemptMetadata
  | .marking delivery mark =>
    delivery.claimId ∈ shared.drawn ∧
      ∃ attempts, Holding shared delivery.invocationId delivery.claimId attempts ∧ Fits attempts mark
  | _ => True

structure Effect (dates : Dates) (mine : Option String) (shared after : Shared) : Prop where
  valid : Valid dates after
  final : Final shared after
  clock : shared.clock ≤ after.clock
  drawn : ∀ claimId ∈ shared.drawn, claimId ∈ after.drawn
  /-- A claim that stands afterwards is that of the call, or stood before with the same attempts. -/
  claims : ∀ invocationId row claimId, after.rows.get invocationId = some row →
    row.metadata "cancelDeliveryClaimId" = some (.text claimId) → mine ≠ some claimId →
    ∃ before, shared.rows.get invocationId = some before ∧
      before.metadata "cancelDeliveryClaimId" = some (.text claimId) ∧
      getAttemptCount row.metadata = getAttemptCount before.metadata

variable {shared after : Shared} {mine : Option String}

theorem Effect.holding (effect : Effect dates mine shared after) {invocationId claimId : String} {attempts : Int}
    (holding : Holding shared invocationId claimId attempts) (other : mine ≠ some claimId) :
    Holding after invocationId claimId attempts := by
  intro row found claimed
  obtain ⟨before, there, same, count⟩ := effect.claims invocationId row claimId found claimed other
  rw [count]
  exact holding before there same

theorem Effect.asserted (effect : Effect dates mine shared after) {call : Call} (asserted : Asserted shared call)
    (apart : ∀ claimId, claimIdOf call = some claimId → mine ≠ some claimId) : Asserted after call := by
  cases call with
  | resolving delivery => exact effect.drawn _ asserted
  | claiming delivery preflight now => exact ⟨effect.drawn _ asserted.1, Int.le_trans asserted.2 effect.clock⟩
  | fetching delivery claimed attemptMetadata =>
    obtain ⟨drawn, holding, prepared⟩ := asserted
    exact ⟨effect.drawn _ drawn, effect.holding holding (apart _ rfl), prepared⟩
  | marking delivery mark =>
    obtain ⟨drawn, attempts, holding, fits⟩ := asserted
    exact ⟨effect.drawn _ drawn, attempts, effect.holding holding (apart _ rfl), fits⟩
  | start | request | publish | deliverToolInvocationCancel => exact asserted
  | complete | invoke | deliverPendingToolInvocationCancels | scanning | beginning | tick => trivial

theorem final_refl (valid : Valid dates shared) : Final shared shared :=
  fun invocationId row found delivered =>
    ⟨⟨row, found, delivered, (valid.rows invocationId row found).asked delivered⟩, rfl⟩

theorem RowValid.later {clock later : Int} {claims : List Claim} {outcomes : List Outcome} {invocationId : String}
    {row : Invocation} (rowValid : RowValid dates clock claims outcomes invocationId row) (passed : clock ≤ later) :
    RowValid dates later claims outcomes invocationId row :=
  { rowValid with
    held := fun claim member own open_ => (rowValid.held claim member own open_).imp_left fun expired => Int.le_trans expired passed }

theorem succeeds_later {clock later : Int} {first second : Claim} (succeeds : Succeeds clock first second)
    (passed : clock ≤ later) : Succeeds later first second :=
  fun same => (succeeds same).imp_right fun expired => Int.le_trans expired passed

theorem Effect.still (valid : Valid dates shared) {clock : Int} {events : List CancelEvent} {drawn : List String}
    (passed : shared.clock ≤ clock) (clean : ∀ event ∈ events, Clean event.metadata)
    (more : ∀ claimId ∈ shared.drawn, claimId ∈ drawn) :
    Effect dates mine shared { shared with clock := clock, events := events, drawn := drawn } where
  valid :=
    { owners := valid.owners.imp fun succeeds => succeeds_later succeeds passed
      holders := valid.holders
      deadLetters := valid.deadLetters
      ends := valid.ends
      rows := fun invocationId row found => (valid.rows invocationId row found).later passed
      absent := valid.absent
      events := clean }
  final := final_refl valid
  clock := passed
  drawn := more
  claims _ row _ found claimed _ := ⟨row, found, claimed, rfl⟩

theorem Effect.same (valid : Valid dates shared) : Effect dates mine shared shared :=
  .still valid (Int.le_refl _) valid.events fun _ => id

variable {invocationId : String} {row written : Invocation}

theorem Valid.set (valid : Valid dates shared)
    (rowValid : RowValid dates shared.clock shared.claims shared.outcomes invocationId written) :
    Valid dates { shared with rows := shared.rows.set invocationId written } where
  owners := valid.owners
  holders := valid.holders
  deadLetters := valid.deadLetters
  ends := valid.ends
  rows other found_ found := by
    rw [Dictionary.get_set] at found
    split at found
    next same =>
      obtain rfl := Option.some.inj found
      rw [same]
      exact rowValid
    next => exact valid.rows other found_ found
  absent other none := by
    rw [Dictionary.get_set] at none
    split at none
    next => cases none
    next => exact valid.absent other none
  events := valid.events

theorem quiet_attempts (quiet : Quiet row written) : getAttemptCount written.metadata = getAttemptCount row.metadata := by
  unfold getAttemptCount
  rw [quiet.keys "cancelDeliveryAttempts" (by decide)]

theorem RowValid.quiet {clock : Int} {claims : List Claim} {outcomes : List Outcome}
    (rowValid : RowValid dates clock claims outcomes invocationId row) (quiet : Quiet row written) :
    RowValid dates clock claims outcomes invocationId written where
  fresh unasked := by
    have before : row.cancelRequestedAt = none := by
      rw [← Option.not_isSome_iff_eq_none]
      intro requested
      have kept := quiet.requested requested
      rw [unasked] at kept
      cases kept
    intro key member
    rw [quiet.keys key member]
    exact rowValid.fresh before key member
  asked delivered := by
    rw [quiet.delivered] at delivered
    exact quiet.requested (rowValid.asked delivered)
  released delivered := by
    rw [quiet.delivered] at delivered
    rw [quiet.keys "cancelDeliveryClaimId" (by decide)]
    exact rowValid.released delivered
  current := by
    rw [quiet.keys "cancelDeliveryClaimId" (by decide)]
    exact rowValid.current
  held := by
    rw [quiet.keys "cancelDeliveryClaimId" (by decide), quiet.keys "cancelDeliveryClaimExpiresAt" (by decide)]
    exact rowValid.held
  attempts := by
    rw [quiet_attempts quiet]
    exact rowValid.attempts
  delivered := by
    rw [quiet.delivered]
    exact rowValid.delivered

theorem Effect.kept {answer : Answer Invocation} (valid : Valid dates shared)
    (kept : Kept (shared.rows.get invocationId) answer.stored) :
    Effect dates mine shared (shared.store invocationId answer) := by
  unfold Shared.store
  cases stored : answer.stored with
  | none => exact .same valid
  | some written =>
    rw [stored] at kept
    cases found : shared.rows.get invocationId with
    | none =>
      rw [found] at kept
      exact kept.elim
    | some row =>
      rw [found] at kept
      have quiet : Quiet row written := kept
      have rowValid := valid.rows invocationId row found
      constructor
      case valid => exact valid.set (rowValid.quiet quiet)
      case final =>
        intro other before there delivered
        refine ⟨?_, rfl⟩
        simp only [Option.elim_some, Dictionary.get_set]
        split
        next same =>
          rw [same, found] at there
          obtain rfl := Option.some.inj there
          refine ⟨written, rfl, ?_, ?_⟩
          · rw [quiet.delivered]
            exact delivered
          · exact quiet.requested (rowValid.asked delivered)
        next => exact ⟨before, there, delivered, (valid.rows other before there).asked delivered⟩
      case clock => exact Int.le_refl _
      case drawn => exact fun _ => id
      case claims =>
        intro other later claimId there claimed _
        simp only [Option.elim_some, Dictionary.get_set] at there
        split at there
        next same =>
          obtain rfl := Option.some.inj there
          rw [quiet.keys "cancelDeliveryClaimId" (by decide)] at claimed
          exact ⟨row, same ▸ found, claimed, quiet_attempts quiet⟩
        next => exact ⟨later, there, claimed, rfl⟩

theorem attemptsOf_none {outcomes : List Outcome} (none : ∀ outcome ∈ outcomes, outcome.invocationId ≠ invocationId) :
    attemptsOf outcomes invocationId = 0 := by
  have zero : outcomes.countP (fun outcome => outcome.invocationId = invocationId && isAttempt outcome.kind) = 0 := by
    apply List.countP_eq_zero.mpr
    intro outcome member both
    simp only [Bool.and_eq_true, decide_eq_true_eq] at both
    exact none outcome member both.1
  rw [attemptsOf, zero]
  rfl

theorem Effect.started (valid : Valid dates shared) (absent : shared.rows.get invocationId = none) (clean : Clean written.metadata)
    (undelivered : written.cancelDeliveredAt = none) :
    Effect dates mine shared { shared with rows := shared.rows.set invocationId written } := by
  obtain ⟨unclaimed, unrecorded⟩ := valid.absent invocationId absent
  have unmarked : written.metadata "cancelDeliveryClaimId" = none := clean _ (by decide)
  constructor
  case valid =>
    apply valid.set
    constructor
    case fresh => exact fun _ => clean
    case asked =>
      intro delivered
      rw [undelivered] at delivered
      cases delivered
    case released => exact fun _ => unmarked
    case current =>
      intro value claimed
      rw [unmarked] at claimed
      cases claimed
    case held => exact fun claim member own => absurd own (unclaimed claim member)
    case attempts =>
      rw [attemptsOf_none unrecorded, getAttemptCount, clean "cancelDeliveryAttempts" (by decide)]
    case delivered =>
      rw [undelivered]
      constructor
      · intro delivered
        cases delivered
      · rintro ⟨outcome, member, own, -⟩
        exact absurd own (unrecorded outcome member)
  case final =>
    intro other before there delivered
    have apart : other ≠ invocationId := by
      rintro rfl
      rw [absent] at there
      cases there
    refine ⟨⟨before, ?_, delivered, (valid.rows other before there).asked delivered⟩, rfl⟩
    rw [Dictionary.get_set_of_ne apart]
    exact there
  case clock => exact Int.le_refl _
  case drawn => exact fun _ => id
  case claims =>
    intro other later claimId there claimed _
    rw [Dictionary.get_set] at there
    split at there
    next =>
      obtain rfl := Option.some.inj there
      rw [unmarked] at claimed
      cases claimed
    next => exact ⟨later, there, claimed, rfl⟩

theorem start_effect {input : StartToolInvocationInput} (run : Run) (valid : Valid dates shared) (clean : Clean input.metadata) :
    Effect dates mine shared
      (shared.store input.invocationId (Pg.start (fun _ => some run) (shared.rows.get input.invocationId) input shared.clock)) := by
  have proposed : Clean (excluded input run shared.clock).metadata := clean_startMetadata clean run
  cases found : shared.rows.get input.invocationId with
  | none => exact .started valid found proposed rfl
  | some row =>
    apply Effect.kept valid
    rw [found]
    exact quiet_conflictRow _ proposed

variable {existing : Option Invocation} {claimId : String} {leaseMs : Int} {claimed : Invocation}

theorem claim_none (none : Shared.returned (Pg.claimCancelDelivery dates existing claimId leaseMs now).reply = none) :
    (Pg.claimCancelDelivery dates existing claimId leaseMs now).stored = existing := by
  unfold Pg.claimCancelDelivery at none ⊢
  split
  next => rfl
  next text found =>
    cases existing with
    | none => rfl
    | some row =>
      simp only [found] at none
      simp only
      split
      next => rfl
      next => rfl
      next due =>
        rw [due] at none
        cases none

structure Claimed (dates : Dates) (existing : Option Invocation) (claimId : String) (leaseMs now : Int) (claimed row : Invocation)
    (text : String) : Prop where
  found : existing = some row
  requested : row.cancelRequestedAt.isSome
  undelivered : row.cancelDeliveredAt = none
  due : Pg.isDue dates row.metadata "cancelDeliveryClaimExpiresAt" now = some true
  expires : dates.toISOString (now + leaseMs) = some text
  written : claimed =
    { row with
      updatedAt := now
      metadata := (row.metadata.put "cancelDeliveryClaimId" (.text claimId)).put "cancelDeliveryClaimExpiresAt" (.text text) }
  stored : (Pg.claimCancelDelivery dates existing claimId leaseMs now).stored = some claimed

theorem isClaimable_spec (claimable : Pg.isClaimable dates now row = some true) :
    row.cancelRequestedAt.isSome ∧ row.cancelDeliveredAt = none ∧
      Pg.isDue dates row.metadata "cancelDeliveryClaimExpiresAt" now = some true := by
  unfold Pg.isClaimable at claimable
  split at claimable
  next asked =>
    obtain ⟨requested, undelivered⟩ := Bool.and_eq_true_iff.mp asked
    split at claimable
    next => exact ⟨requested, Option.isNone_iff_eq_none.mp undelivered, claimable⟩
    next later =>
      exact absurd claimable later
  next => cases claimable

theorem claim_some
    (answered : Shared.returned (Pg.claimCancelDelivery dates existing claimId leaseMs now).reply = some claimed) :
    ∃ row text, Claimed dates existing claimId leaseMs now claimed row text := by
  unfold Pg.claimCancelDelivery at answered
  cases expires : dates.toISOString (now + leaseMs) with
  | none =>
    rw [expires] at answered
    cases answered
  | some text =>
    simp only [expires] at answered
    cases existing with
    | none => cases answered
    | some row =>
      simp only at answered
      cases claimable : Pg.isClaimable dates now row with
      | none =>
        simp only [claimable] at answered
        cases answered
      | some verdict =>
        cases verdict with
        | false =>
          simp only [claimable] at answered
          cases answered
        | true =>
          simp only [claimable] at answered
          obtain ⟨requested, undelivered, due⟩ := isClaimable_spec claimable
          have same := Option.some.inj answered
          refine ⟨row, text, rfl, requested, undelivered, due, expires, same.symm, ?_⟩
          unfold Pg.claimCancelDelivery
          simp only [expires, claimable]
          exact congrArg some same

theorem claimed_metadata {text : String} (taken : Claimed dates existing claimId leaseMs now claimed row text) :
    claimed.metadata =
      (row.metadata.put "cancelDeliveryClaimId" (.text claimId)).put "cancelDeliveryClaimExpiresAt" (.text text) := by
  rw [taken.written]

theorem claimed_claimId {text : String} (taken : Claimed dates existing claimId leaseMs now claimed row text) :
    claimed.metadata "cancelDeliveryClaimId" = some (.text claimId) := by
  rw [claimed_metadata taken, Metadata.put_other _ _ (by decide), Metadata.put_self]

theorem claimed_expiresAt {text : String} (taken : Claimed dates existing claimId leaseMs now claimed row text) :
    claimed.metadata "cancelDeliveryClaimExpiresAt" = some (.text text) := by
  rw [claimed_metadata taken, Metadata.put_self]

theorem claimed_attempts {text : String} (taken : Claimed dates existing claimId leaseMs now claimed row text) :
    getAttemptCount claimed.metadata = getAttemptCount row.metadata := by
  unfold getAttemptCount
  rw [claimed_metadata taken, Metadata.put_other _ _ (by decide), Metadata.put_other _ _ (by decide)]

/-- Whoever has the row claims it once the claims before have ended or expired. -/
theorem RowValid.expired (lawful : Lawful dates) {clock : Int} {claims : List Claim} {outcomes : List Outcome}
    (rowValid : RowValid dates clock claims outcomes invocationId row) (passed : now ≤ clock)
    (due : Pg.isDue dates row.metadata "cancelDeliveryClaimExpiresAt" now = some true) {claim : Claim} (member : claim ∈ claims)
    (own : claim.invocationId = invocationId) : claim.ended ∨ claim.expiresAt ≤ clock := by
  cases ended : claim.ended with
  | true => exact .inl rfl
  | false =>
    refine .inr ?_
    obtain over_ | ⟨-, text, kept, written⟩ := rowValid.held claim member own ended
    · exact over_
    · rw [Pg.isDue, Metadata.text, kept] at due
      obtain ⟨time, read, come⟩ := Option.map_eq_some_iff.mp due
      rw [lawful _ text time written read] at come
      exact Int.le_trans (of_decide_eq_true come) passed

theorem Effect.granted (lawful : Lawful dates) (valid : Valid dates shared) {text : String} {answer : Answer Invocation}
    (taken : Claimed dates (shared.rows.get invocationId) claimId leaseMs now claimed row text) (passed : now ≤ shared.clock)
    (stored : answer.stored = some claimed) :
    Effect dates (some claimId) shared ((shared.store invocationId answer).grant invocationId claimId (now + leaseMs)) := by
  have rowValid := valid.rows invocationId row taken.found
  have written : claimed.cancelRequestedAt = row.cancelRequestedAt ∧ claimed.cancelDeliveredAt = row.cancelDeliveredAt := by
    rw [taken.written]
    exact ⟨rfl, rfl⟩
  have undelivered : claimed.cancelDeliveredAt = none := written.2.trans taken.undelivered
  simp only [Shared.store, Shared.grant, stored, Option.elim_some]
  constructor
  case valid =>
    constructor
    case owners =>
      rw [List.pairwise_append]
      refine ⟨valid.owners, List.pairwise_singleton _ _, fun first member second last => ?_⟩
      rw [List.mem_singleton] at last
      subst last
      exact rowValid.expired lawful passed taken.due member
    case holders => exact valid.holders
    case deadLetters => exact valid.deadLetters
    case ends => exact valid.ends
    case rows =>
      intro other later found
      rw [Dictionary.get_set] at found
      split at found
      next same =>
        obtain rfl := Option.some.inj found
        subst same
        constructor
        case fresh =>
          intro unasked
          rw [written.1] at unasked
          have requested := taken.requested
          rw [unasked] at requested
          cases requested
        case asked => exact fun _ => written.1 ▸ taken.requested
        case released =>
          intro delivered
          rw [undelivered] at delivered
          cases delivered
        case current =>
          intro value marked
          rw [claimed_claimId taken] at marked
          obtain rfl := Option.some.inj marked
          refine ⟨⟨other, claimId, now + leaseMs, false⟩, ?_, rfl⟩
          rw [List.filter_append, List.filter_cons_of_pos, List.filter_nil, List.getLast?_concat]
          exact decide_eq_true rfl
        case held =>
          intro claim member own open_
          obtain old | new := List.mem_append.mp member
          · obtain ended | over_ := rowValid.expired lawful passed taken.due old own
            · rw [ended] at open_
              cases open_
            · exact .inl over_
          · rw [List.mem_singleton] at new
            subst new
            exact .inr ⟨claimed_claimId taken, text, claimed_expiresAt taken, taken.expires⟩
        case attempts => exact (claimed_attempts taken).trans rowValid.attempts
        case delivered =>
          rw [written.2]
          exact rowValid.delivered
      next apart =>
        have old := valid.rows other later found
        refine { old with current := fun value marked => ?_, held := fun claim member own open_ => ?_ }
        · obtain ⟨claim, last, named⟩ := old.current value marked
          refine ⟨claim, ?_, named⟩
          rw [List.filter_append, List.filter_cons_of_neg, List.filter_nil, List.append_nil]
          · exact last
          · rw [decide_eq_true_eq]
            exact Ne.symm apart
        · obtain member | new := List.mem_append.mp member
          · exact old.held claim member own open_
          · rw [List.mem_singleton] at new
            subst new
            exact absurd own.symm apart
    case absent =>
      intro other none
      rw [Dictionary.get_set] at none
      split at none
      next => cases none
      next apart =>
        obtain ⟨unclaimed, unrecorded⟩ := valid.absent other none
        refine ⟨fun claim member => ?_, unrecorded⟩
        obtain old | new := List.mem_append.mp member
        · exact unclaimed claim old
        · rw [List.mem_singleton] at new
          subst new
          exact Ne.symm apart
    case events => exact valid.events
  case final =>
    intro other before there delivered
    refine ⟨⟨before, ?_, delivered, (valid.rows other before there).asked delivered⟩, rfl⟩
    have apart : other ≠ invocationId := by
      rintro rfl
      rw [taken.found] at there
      obtain rfl := Option.some.inj there
      rw [taken.undelivered] at delivered
      cases delivered
    exact (Dictionary.get_set_of_ne apart).trans there
  case clock => exact Int.le_refl _
  case drawn => exact fun _ => id
  case claims =>
    intro other later marked found named others
    rw [Dictionary.get_set] at found
    split at found
    next =>
      obtain rfl := Option.some.inj found
      rw [claimed_claimId taken] at named
      obtain rfl := Json.text.inj (Option.some.inj named)
      exact absurd rfl others
    next => exact ⟨later, found, named, rfl⟩

theorem update_none {existing changed : Option Invocation} (none : Shared.returned (update existing changed).reply = none) :
    (update existing changed).stored = existing := by
  cases changed with
  | none => rfl
  | some => cases none

theorem mark_none {delivery : Delivery} (none : Shared.returned (shared.mark delivery mark).reply = none) :
    (shared.mark delivery mark).stored = shared.rows.get delivery.invocationId := by
  unfold Shared.mark at none ⊢
  simp only at none ⊢
  split
  next terminal =>
    rw [if_pos terminal] at none
    exact update_none none
  next short =>
    rw [if_neg short] at none
    exact update_none none

structure Marked (existing : Option Invocation) (delivery : Delivery) (mark : Mark) (written row : Invocation) : Prop where
  found : existing = some row
  held : row.metadata.text "cancelDeliveryClaimId" = some delivery.claimId
  requested : written.cancelRequestedAt = row.cancelRequestedAt
  delivered : written.cancelDeliveredAt.isSome = (row.cancelDeliveredAt.isSome || mark.kind.isTerminal)
  metadata : written.metadata = releaseDelivery row.metadata mark.patch

theorem mark_some {delivery : Delivery} (answered : Shared.returned (shared.mark delivery mark).reply = some written) :
    ∃ row, Marked (shared.rows.get delivery.invocationId) delivery mark written row ∧
      (shared.mark delivery mark).stored = some written := by
  unfold Shared.mark at answered ⊢
  simp only at answered ⊢
  split at answered
  next terminal =>
    rw [if_pos terminal]
    obtain ⟨row, kept, rfl⟩ := Option.map_eq_some_iff.mp answered
    obtain ⟨found, held⟩ := Option.filter_eq_some_iff.mp kept
    refine ⟨row, ⟨found, of_decide_eq_true held, rfl, ?_, rfl⟩, ?_⟩
    · rw [terminal, Bool.or_true]
      cases row.cancelDeliveredAt <;> rfl
    · simp only [Pg.markCancelDelivered, update]
      rw [kept]
      rfl
  next short =>
    rw [if_neg short]
    obtain ⟨row, kept, rfl⟩ := Option.map_eq_some_iff.mp answered
    obtain ⟨found, held⟩ := Option.filter_eq_some_iff.mp kept
    refine ⟨row, ⟨found, of_decide_eq_true held, rfl, ?_, rfl⟩, ?_⟩
    · rw [Bool.eq_false_iff.mpr short, Bool.or_false]
    · simp only [Pg.markCancelDeliveryAttempt, update]
      rw [kept]
      rfl

theorem released_other (metadata patch : Metadata) {key : String} (other : key ∉ claimKeys) :
    releaseDelivery metadata patch key = (patch key).or (metadata key) := by
  have first : key ≠ "cancelDeliveryClaimId" := by
    rintro rfl
    exact other List.mem_cons_self
  have second : key ≠ "cancelDeliveryClaimExpiresAt" := by
    rintro rfl
    exact other (List.mem_cons_of_mem _ List.mem_cons_self)
  rw [releaseDelivery, Proofs.InvocationStores.merge_apply, Metadata.without_other _ second, Metadata.without_other _ first]

theorem released_claimId {attempts : Int} (metadata : Metadata) (fits : Fits attempts mark) :
    releaseDelivery metadata mark.patch "cancelDeliveryClaimId" = none := by
  rw [releaseDelivery, Proofs.InvocationStores.merge_apply, fits.keys _ List.mem_cons_self, Option.none_or,
    Metadata.without_other _ (by decide), Metadata.without_self]

theorem released_attempts {metadata : Metadata} (fits : Fits (getAttemptCount metadata) mark) :
    getAttemptCount (releaseDelivery metadata mark.patch) = getAttemptCount metadata + if isAttempt mark.kind then 1 else 0 := by
  have written := released_other metadata mark.patch (show "cancelDeliveryAttempts" ∉ claimKeys by decide)
  rw [fits.counted] at written
  cases attempt : isAttempt mark.kind with
  | true =>
    rw [attempt, if_pos rfl, Option.some_or] at written
    have nonneg := getAttemptCount_nonneg metadata
    rw [getAttemptCount, written, if_pos rfl]
    exact if_pos (by omega)
  | false =>
    rw [attempt, if_neg Bool.false_ne_true, Option.none_or] at written
    rw [getAttemptCount, written, if_neg Bool.false_ne_true, Int.add_zero]
    rfl

theorem attemptsOf_concat (outcomes : List Outcome) (outcome : Outcome) (invocationId : String) :
    attemptsOf (outcomes ++ [outcome]) invocationId =
      attemptsOf outcomes invocationId + if outcome.invocationId = invocationId && isAttempt outcome.kind then 1 else 0 := by
  rw [attemptsOf, List.countP_append, List.countP_singleton, Int.natCast_add, attemptsOf]
  congr 1
  split <;> rfl

def endedBy (invocationId claimId : String) (claim : Claim) : Claim :=
  if claim.invocationId = invocationId ∧ claim.claimId = claimId then { claim with ended := true } else claim

@[simp] theorem endedBy_invocationId (claim : Claim) : (endedBy invocationId claimId claim).invocationId = claim.invocationId := by
  unfold endedBy
  split <;> rfl

@[simp] theorem endedBy_claimId (claim : Claim) : (endedBy invocationId claimId claim).claimId = claim.claimId := by
  unfold endedBy
  split <;> rfl

@[simp] theorem endedBy_expiresAt (claim : Claim) : (endedBy invocationId claimId claim).expiresAt = claim.expiresAt := by
  unfold endedBy
  split <;> rfl

theorem record_eq (shared : Shared) (invocationId claimId : String) (mark : Mark) :
    shared.record invocationId claimId mark =
      { shared with
        outcomes := shared.outcomes ++
          [⟨invocationId, claimId, (shared.claimsOf invocationId).getLast?.map (·.claimId), mark.kind, mark.maxAttempts⟩]
        claims := shared.claims.map (endedBy invocationId claimId) } := rfl

theorem endedBy_ended {claim : Claim} (ended : claim.ended) : (endedBy invocationId claimId claim).ended := by
  unfold endedBy
  split
  next => rfl
  next => exact ended

theorem endedBy_open {claim : Claim} (open_ : (endedBy invocationId claimId claim).ended = false) :
    claim.ended = false ∧ ¬(claim.invocationId = invocationId ∧ claim.claimId = claimId) := by
  unfold endedBy at open_
  split at open_
  next => cases open_
  next other => exact ⟨open_, other⟩

theorem succeeds_ended {clock : Int} {first second : Claim} (succeeds : Succeeds clock first second) :
    Succeeds clock (endedBy invocationId claimId first) (endedBy invocationId claimId second) := by
  intro same
  rw [endedBy_invocationId, endedBy_invocationId] at same
  rw [endedBy_expiresAt]
  exact (succeeds same).imp_left endedBy_ended

theorem filter_ended (claims : List Claim) (other : String) :
    (claims.map (endedBy invocationId claimId)).filter (·.invocationId = other) =
      (claims.filter (·.invocationId = other)).map (endedBy invocationId claimId) := by
  rw [List.filter_map]
  congr 1
  apply List.filter_congr
  intro claim _
  rw [Function.comp_apply, endedBy_invocationId]

section Recording

variable {clock : Int} {claims : List Claim} {outcomes : List Outcome} {delivery : Delivery} {outcome : Outcome}

theorem RowValid.holder (rowValid : RowValid dates clock claims outcomes invocationId row)
    (held : row.metadata.text "cancelDeliveryClaimId" = some claimId) :
    row.metadata "cancelDeliveryClaimId" = some (.text claimId) ∧
      ((claims.filter (·.invocationId = invocationId)).getLast?.map (·.claimId)) = some claimId := by
  cases kept : row.metadata "cancelDeliveryClaimId" with
  | none =>
    rw [Metadata.text, kept] at held
    cases held
  | some value =>
    obtain ⟨claim, last, rfl⟩ := rowValid.current value kept
    rw [Metadata.text, kept] at held
    obtain rfl := Option.some.inj held
    exact ⟨rfl, by rw [last, Option.map_some]⟩

theorem RowValid.undelivered (rowValid : RowValid dates clock claims outcomes invocationId row)
    (claimed : row.metadata "cancelDeliveryClaimId" = some (.text claimId)) : row.cancelDeliveredAt = none := by
  rw [← Option.not_isSome_iff_eq_none]
  intro delivered
  rw [rowValid.released delivered] at claimed
  cases claimed

theorem RowValid.requested (rowValid : RowValid dates clock claims outcomes invocationId row)
    (claimed : row.metadata "cancelDeliveryClaimId" = some (.text claimId)) : row.cancelRequestedAt.isSome := by
  rw [← Option.ne_none_iff_isSome]
  intro unasked
  rw [rowValid.fresh unasked _ List.mem_cons_self] at claimed
  cases claimed

theorem exists_concat (outcomes : List Outcome) (outcome : Outcome) (holds : Outcome → Prop) :
    (∃ found ∈ outcomes ++ [outcome], holds found) ↔ (∃ found ∈ outcomes, holds found) ∨ holds outcome := by
  simp only [List.mem_append, List.mem_singleton, or_and_right, exists_or, exists_eq_left]

theorem RowValid.recorded (rowValid : RowValid dates clock claims outcomes invocationId row)
    (marked : Marked (some row) delivery mark written row) (fits : Fits (getAttemptCount row.metadata) mark)
    (own : outcome.invocationId = invocationId) (kind : outcome.kind = mark.kind) :
    RowValid dates clock (claims.map (endedBy invocationId delivery.claimId)) (outcomes ++ [outcome]) invocationId written := by
  have claimed := (rowValid.holder marked.held).1
  have undelivered := rowValid.undelivered claimed
  have released : written.metadata "cancelDeliveryClaimId" = none := by
    rw [marked.metadata]
    exact released_claimId row.metadata fits
  constructor
  case fresh =>
    intro unasked
    rw [marked.requested] at unasked
    have requested := rowValid.requested claimed
    rw [unasked] at requested
    cases requested
  case asked =>
    intro
    rw [marked.requested]
    exact rowValid.requested claimed
  case released => exact fun _ => released
  case current =>
    intro value named
    rw [released] at named
    cases named
  case held =>
    intro claim member same open_
    obtain ⟨before, old, rfl⟩ := List.mem_map.mp member
    obtain ⟨open_, other⟩ := endedBy_open open_
    rw [endedBy_invocationId] at same
    rw [endedBy_expiresAt]
    obtain over_ | ⟨kept, -⟩ := rowValid.held before old same open_
    · exact .inl over_
    · rw [claimed] at kept
      exact absurd ⟨same, (Json.text.inj (Option.some.inj kept)).symm⟩ other
  case attempts =>
    rw [marked.metadata, released_attempts fits, attemptsOf_concat, rowValid.attempts, own, kind, decide_eq_true rfl, Bool.true_and]
  case delivered =>
    rw [marked.delivered, undelivered, exists_concat, own, kind, ← rowValid.delivered, undelivered]
    simp only [Option.isSome_none, Bool.false_or, Bool.false_eq_true, true_and, false_or]

theorem RowValid.beside (rowValid : RowValid dates clock claims outcomes invocationId row)
    {other : String} (own : outcome.invocationId = other) (apart : other ≠ invocationId) :
    RowValid dates clock (claims.map (endedBy other claimId)) (outcomes ++ [outcome]) invocationId row :=
  { rowValid with
    current := by
      intro value named
      obtain ⟨claim, last, rfl⟩ := rowValid.current value named
      refine ⟨endedBy other claimId claim, ?_, ?_⟩
      · rw [filter_ended, List.getLast?_map, last, Option.map_some]
      · rw [endedBy_claimId]
    held := by
      intro claim member same open_
      obtain ⟨before, old, rfl⟩ := List.mem_map.mp member
      rw [endedBy_invocationId] at same
      rw [endedBy_expiresAt, endedBy_claimId]
      exact rowValid.held before old same (endedBy_open open_).1
    attempts := by
      rw [attemptsOf_concat, own, decide_eq_false apart, Bool.false_and, if_neg Bool.false_ne_true, Int.add_zero]
      exact rowValid.attempts
    delivered := by
      rw [exists_concat, ← rowValid.delivered]
      simp only [own, apart, false_and, or_false] }

theorem Effect.recorded {answer : Answer Invocation} (valid : Valid dates shared)
    (marked : Marked (shared.rows.get delivery.invocationId) delivery mark written row)
    (fits : Fits (getAttemptCount row.metadata) mark) (stored : answer.stored = some written) :
    Effect dates mine shared
      ((shared.store delivery.invocationId answer).record delivery.invocationId delivery.claimId mark) := by
  have rowValid := valid.rows _ row marked.found
  obtain ⟨claimed, last⟩ := rowValid.holder marked.held
  have undelivered := rowValid.undelivered claimed
  have ending (outcome : Outcome) (member : outcome ∈ shared.outcomes) (terminal : outcome.kind.isTerminal) :
      delivery.invocationId ≠ outcome.invocationId := by
    intro same
    have delivered := rowValid.delivered.mpr ⟨outcome, member, same.symm, terminal⟩
    rw [undelivered] at delivered
    cases delivered
  simp only [Shared.store, stored, Option.elim_some, record_eq]
  constructor
  case valid =>
    constructor
    case owners => exact valid.owners.map _ fun _ _ => succeeds_ended
    case holders =>
      intro outcome member
      obtain old | new := List.mem_append.mp member
      · exact valid.holders outcome old
      · rw [List.mem_singleton] at new
        subst new
        exact last
    case deadLetters =>
      intro before outcome after same failed
      obtain ⟨rfl, rfl, -⟩ | ⟨less, -, old⟩ := split_concat same
      · rw [← rowValid.attempts]
        exact fits.deadLetter failed
      · exact valid.deadLetters before outcome less old failed
    case ends =>
      intro before outcome after same terminal later member
      obtain ⟨rfl, rfl, rfl⟩ | ⟨less, rfl, old⟩ := split_concat same
      · cases member
      · obtain inside | new := List.mem_append.mp member
        · exact valid.ends before outcome less old terminal later inside
        · rw [List.mem_singleton] at new
          subst new
          apply ending outcome _ terminal
          rw [old]
          exact List.mem_append_right _ List.mem_cons_self
    case rows =>
      intro other later found
      rw [Dictionary.get_set] at found
      split at found
      next same =>
        obtain rfl := Option.some.inj found
        subst same
        exact rowValid.recorded (marked.found ▸ marked) fits rfl rfl
      next apart =>
        refine RowValid.beside (valid.rows other later found) ?_ (Ne.symm apart)
        rfl
    case absent =>
      intro other none
      rw [Dictionary.get_set] at none
      split at none
      next => cases none
      next apart =>
        obtain ⟨unclaimed, unrecorded⟩ := valid.absent other none
        constructor
        · intro claim member
          obtain ⟨before, old, rfl⟩ := List.mem_map.mp member
          rw [endedBy_invocationId]
          exact unclaimed before old
        · intro outcome member
          obtain old | new := List.mem_append.mp member
          · exact unrecorded outcome old
          · rw [List.mem_singleton] at new
            subst new
            exact Ne.symm apart
    case events => exact valid.events
  case final =>
    intro other before there delivered
    have apart : other ≠ delivery.invocationId := by
      rintro rfl
      rw [marked.found] at there
      obtain rfl := Option.some.inj there
      rw [undelivered] at delivered
      cases delivered
    refine ⟨⟨before, ?_, delivered, (valid.rows other before there).asked delivered⟩, ?_⟩
    · exact (Dictionary.get_set_of_ne apart).trans there
    · simp only [Shared.outcomesOf]
      rw [List.filter_append, List.filter_cons_of_neg, List.filter_nil, List.append_nil]
      rw [decide_eq_true_eq]
      exact Ne.symm apart
  case clock => exact Int.le_refl _
  case drawn => exact fun _ => id
  case claims =>
    intro other later marked_ found named others
    rw [Dictionary.get_set] at found
    split at found
    next =>
      obtain rfl := Option.some.inj found
      rw [marked.metadata, released_claimId row.metadata fits] at named
      cases named
    next => exact ⟨later, found, named, rfl⟩

end Recording

/-- A step, with what follows it. -/
structure Follows (dates : Dates) (call : Call) (shared after : Shared) (rest : Option Call) : Prop where
  effect : Effect dates (claimIdOf call) shared after
  asserted : ∀ next, rest = some next → Asserted after next
  apart : ∀ next claimId, rest = some next → claimIdOf next = some claimId →
    claimIdOf call = some claimId ∨ claimId ∉ shared.drawn

variable {call next : Call}

theorem Follows.stops (effect : Effect dates (claimIdOf call) shared after) : Follows dates call shared after none where
  effect := effect
  asserted _ wrong := by cases wrong
  apart _ _ wrong := by cases wrong

theorem Follows.goes (effect : Effect dates (claimIdOf call) shared after) (asserted : Asserted after next)
    (apart : ∀ claimId, claimIdOf next = some claimId → claimIdOf call = some claimId ∨ claimId ∉ shared.drawn) :
    Follows dates call shared after (some next) where
  effect := effect
  asserted _ same := Option.some.inj same ▸ asserted
  apart _ claimId same := Option.some.inj same ▸ apart claimId

theorem Follows.plain (effect : Effect dates (claimIdOf call) shared after) (asserted : Asserted after next)
    (unclaimed : claimIdOf next = none) : Follows dates call shared after (some next) := by
  apply Follows.goes effect asserted
  intro claimId same
  rw [unclaimed] at same
  cases same

theorem Follows.scans (effect : Effect dates (claimIdOf call) shared after) (delivery : Delivery) :
    Follows dates call shared after delivery.after := by
  unfold Delivery.after
  cases delivery.scan with
  | none => exact .stops effect
  | some scan => exact .plain effect trivial rfl

theorem requestCancelOnce_first {existing : Option Invocation} {reason : Option String} {metadataPatch : Metadata}
    (first : (Pg.requestCancelOnce existing reason metadataPatch now).reply = .cancellation (some (row, true))) :
    ∃ before, existing = some before ∧ before.cancelRequestedAt = none ∧ row.metadata = before.metadata.merge metadataPatch := by
  unfold Pg.requestCancelOnce at first
  split at first
  next written wrote =>
    obtain ⟨before, kept, rfl⟩ := Option.map_eq_some_iff.mp wrote
    obtain ⟨found, unasked⟩ := Option.filter_eq_some_iff.mp kept
    simp only [Reply.cancellation.injEq, Option.some.injEq, Prod.mk.injEq] at first
    obtain ⟨rfl, -⟩ := first
    exact ⟨before, found, Option.isNone_iff_eq_none.mp (Bool.and_eq_true_iff.mp unasked).1, rfl⟩
  next =>
    simp only [Reply.cancellation.injEq, Option.map_eq_some_iff, Prod.mk.injEq, Bool.false_eq_true, and_false, exists_false]
      at first

/-- The event of a first request carries nothing of a delivery: none has claimed the invocation yet. -/
theorem published_clean (valid : Valid dates shared) {reason : Option String} {metadataPatch : Metadata}
    (clean : Clean metadataPatch)
    (first : (Pg.requestCancelOnce (shared.rows.get invocationId) reason metadataPatch now).reply =
      .cancellation (some (row, true))) : Clean row.metadata := by
  obtain ⟨before, found, unasked, merged⟩ := requestCancelOnce_first first
  intro key member
  rw [merged, merge_clean clean member]
  exact (valid.rows invocationId before found).fresh unasked key member

section Deliveries

variable {delivery : Delivery}

theorem claiming_follows (lawful : Lawful dates) (valid : Valid dates shared) (passed : now ≤ shared.clock)
    (answered : Shared.returned (shared.claim dates delivery now).reply = some claimed) :
    let stored := shared.store delivery.invocationId (shared.claim dates delivery now)
    let granted := stored.grant delivery.invocationId delivery.claimId (now + delivery.leaseMs)
    Effect dates (some delivery.claimId) shared granted ∧
      Holding granted delivery.invocationId delivery.claimId (getAttemptCount claimed.metadata) := by
  obtain ⟨row, text, taken⟩ := claim_some answered
  refine ⟨Effect.granted lawful valid taken passed taken.stored, fun later found _ => ?_⟩
  have stored : (shared.claim dates delivery now).stored = some claimed := taken.stored
  simp only [Shared.store, Shared.grant, stored, Option.elim_some, Dictionary.get_set_self] at found
  rw [Option.some.inj found]

theorem kept_stored (answer : Answer Invocation) (same : answer.stored = shared.rows.get invocationId) :
    Kept (shared.rows.get invocationId) answer.stored := by
  rw [same]
  exact kept_refl _

theorem marking_follows (valid : Valid dates shared) {attempts : Int}
    (holding : Holding shared delivery.invocationId delivery.claimId attempts) (fits : Fits attempts mark)
    (answered : Shared.returned (shared.mark delivery mark).reply = some written) :
    Effect dates mine shared
      ((shared.store delivery.invocationId (shared.mark delivery mark)).record delivery.invocationId delivery.claimId mark) := by
  obtain ⟨row, marked, stored⟩ := mark_some answered
  have claimed := ((valid.rows _ row marked.found).holder marked.held).1
  rw [← holding row marked.found claimed] at fits
  exact Effect.recorded valid marked fits stored

end Deliveries

theorem advance_follows (lawful : Lawful dates) {move : Move} {rest : Option Call} (valid : Valid dates shared)
    (asserted : Asserted shared call) (permitted : permits shared call move)
    (moved : advance dates shared call move = some (after, rest)) : Follows dates call shared after rest := by
  unfold advance at moved
  split at moved
  next input run =>
    cases moved
    exact .stops (start_effect run valid asserted)
  next =>
    cases moved
    exact .stops (.kept valid kept_complete)
  next invocationId worker =>
    cases moved
    exact .stops (.kept valid (kept_invoke shared invocationId worker))
  next =>
    cases moved
    split
    next row first => exact .plain (.kept valid (kept_requestCancelOnce asserted)) (published_clean valid asserted first) rfl
    next => exact .stops (.kept valid (kept_requestCancelOnce asserted))
  next =>
    cases moved
    exact .stops (.kept valid (kept_requestCancelOnce asserted))
  next event =>
    cases moved
    apply Follows.stops
    apply Effect.still valid (Int.le_refl _) _ fun _ => id
    intro other member
    obtain old | new := List.mem_append.mp member
    · exact valid.events other old
    · rw [List.mem_singleton.mp new]
      exact asserted
  next event options =>
    cases moved
    cases Shared.returned (Pg.requestCancel (shared.rows.get event.invocationId) event.reason event.metadata shared.clock).reply with
    | none => exact .stops (.kept valid (kept_requestCancel asserted))
    | some record => exact .plain (.kept valid (kept_requestCancel asserted)) trivial rfl
  next =>
    cases moved
    exact .stops (.kept valid (kept_requestCancel asserted))
  next =>
    cases moved
    exact .plain (.same valid) trivial rfl
  next =>
    split at moved
    next =>
      cases moved
      exact .stops (.same valid)
    next =>
      split at moved
      all_goals
        cases moved
        exact .plain (.same valid) trivial rfl
  next claimId =>
    cases moved
    apply Follows.goes
    · exact Effect.still valid (Int.le_refl _) valid.events fun _ => List.mem_append_left _
    · exact List.mem_append_right _ List.mem_cons_self
    · intro drawn same
      obtain rfl := Option.some.inj same
      exact .inr permitted
  next =>
    cases moved
    exact .goes (.same valid) ⟨asserted, Int.le_refl _⟩ fun _ => .inl
  next delivery preflight now =>
    simp only at moved
    split at moved
    next none =>
      cases moved
      exact .scans (.kept valid (kept_stored _ (claim_none none))) delivery
    next claimed answered =>
      cases moved
      obtain ⟨effect, holding⟩ := claiming_follows lawful valid asserted.2 answered
      cases followed : delivery.afterClaim dates preflight claimed with
      | none => exact .stops effect
      | some next =>
        have drawn := effect.drawn _ asserted.1
        cases next with
        | mark mark => exact .goes effect ⟨drawn, _, holding, fits_afterClaim followed⟩ fun _ => .inl
        | fetch attemptMetadata => exact .goes effect ⟨drawn, holding, fits_afterClaim followed⟩ fun _ => .inl
  next delivery preflight now =>
    simp only at moved
    split at moved
    next none =>
      cases moved
      exact .scans (.kept valid (kept_stored _ (claim_none none))) delivery
    next claimed answered =>
      cases moved
      exact .scans (claiming_follows lawful valid asserted.2 answered).1 delivery
  next delivery claimed attemptMetadata response =>
    cases moved
    obtain ⟨drawn, holding, prepared⟩ := asserted
    cases followed : delivery.afterFetch dates claimed attemptMetadata response with
    | none => exact .stops (.same valid)
    | some mark => exact .goes (.same valid) ⟨drawn, _, holding, fits_afterFetch prepared followed⟩ fun _ => .inl
  iterate 2
    next delivery mark =>
      obtain ⟨-, attempts, holding, fits⟩ := asserted
      simp only at moved
      split at moved
      next none =>
        cases moved
        exact .scans (.kept valid (kept_stored _ (mark_none none))) delivery
      next written answered =>
        cases moved
        exact .scans (marking_follows valid holding fits answered) delivery
  next delivery _ _ =>
    cases moved
    exact .scans (.same valid) delivery
  next delivery _ =>
    cases moved
    exact .scans (.same valid) delivery
  next milliseconds =>
    cases moved
    apply Follows.stops
    exact Effect.still valid (by omega) valid.events fun _ => id
  iterate 8
    next =>
      cases moved
      exact .stops (.same valid)
  next => cases moved

theorem asserted_drawn (asserted : Asserted shared call) (own : claimIdOf call = some claimId) : claimId ∈ shared.drawn := by
  cases call with
  | resolving delivery =>
    obtain rfl := Option.some.inj own
    exact asserted
  | claiming delivery =>
    obtain rfl := Option.some.inj own
    exact asserted.1
  | fetching delivery =>
    obtain rfl := Option.some.inj own
    exact asserted.1
  | marking delivery =>
    obtain rfl := Option.some.inj own
    exact asserted.1
  | start | complete | invoke | request | publish | deliverToolInvocationCancel | deliverPendingToolInvocationCancels
  | scanning | beginning | tick => cases own

/-- Two calls never deliver under one id. -/
def Apart (call other : Call) : Prop := ∀ claimId, claimIdOf call = some claimId → claimIdOf other ≠ some claimId

def outline (dates : Dates) : Outline Shared Call where
  shared := Valid dates
  call := Asserted
  apart := Apart
  grows shared after := Valid dates shared → Valid dates after ∧ Final shared after

theorem final_trans {later : Shared} (first : Final shared after) (second : Final after later) : Final shared later := by
  intro invocationId row found delivered
  obtain ⟨⟨middle, there, still, -⟩, same⟩ := first invocationId row found delivered
  obtain ⟨last, more⟩ := second invocationId middle there still
  exact ⟨last, more.trans same⟩

theorem starts_asserted (valid : Valid dates shared) (started : starts shared call) : Asserted shared call ∧ claimIdOf call = none := by
  cases call with
  | start | request => exact ⟨started, rfl⟩
  | deliverToolInvocationCancel event options => exact ⟨valid.events event started, rfl⟩
  | complete | invoke | deliverPendingToolInvocationCancels | tick => exact ⟨trivial, rfl⟩
  | publish | scanning | beginning | resolving | claiming | fetching | marking => exact started.elim

theorem outline_sound (lawful : Lawful dates) : (outline dates).Sound (service dates) where
  refl _ valid := ⟨valid, final_refl valid⟩
  trans first second valid := by
    obtain ⟨kept, final⟩ := first valid
    obtain ⟨last, more⟩ := second kept
    exact ⟨last, final_trans final more⟩
  symm apart claimId own same := apart claimId same own
  starts valid started := by
    obtain ⟨asserted, unclaimed⟩ := starts_asserted valid started
    refine ⟨asserted, fun other _ claimId own => ?_⟩
    rw [unclaimed] at own
    cases own
  advances valid asserted permitted moved := by
    have follows := advance_follows lawful valid asserted permitted moved
    refine ⟨follows.effect.valid, fun _ => ⟨follows.effect.valid, follows.effect.final⟩, fun next same => ?_⟩
    refine ⟨follows.asserted next same, fun other known apart claimId own => ?_⟩
    obtain before | fresh := follows.apart next claimId same own
    · exact apart claimId before
    · exact fun taken => fresh (asserted_drawn known taken)
  stable valid asserted permitted moved other apart := by
    have follows := advance_follows lawful valid asserted permitted moved
    exact follows.effect.asserted other fun claimId own same => apart claimId same own

/-- The cancellations of all invocations, whoever delivers them. -/
theorem deliveries_orderly (lawful : Lawful dates) {clock : Int} {world later : World Shared Call}
    (run : Run (service dates) ⟨.initial clock, []⟩ world) (more : Run (service dates) world later) :
    Orderly world.shared ∧ Final world.shared later.shared := by
  have start : (outline dates).Holds ⟨.initial clock, []⟩ := .start (valid_initial dates clock)
  have holds := (start.run (outline_sound lawful) run).1
  have valid : Valid dates world.shared := holds.shared
  exact ⟨valid.orderly, ((holds.run (outline_sound lawful) more).2 valid).2⟩

instance (metadata : Metadata) : Decidable (Clean metadata) :=
  inferInstanceAs (Decidable (∀ key ∈ ownerKeys, metadata key = none))

/-- Whether an event is one of those that were published is not decided: its metadata is a function. -/
noncomputable instance (dates : Dates) (shared : Shared) (call : Call) : Decidable ((service dates).starts shared call) :=
  match call with
  | .start input _ => inferInstanceAs (Decidable (Clean input.metadata))
  | .request _ _ metadataPatch => inferInstanceAs (Decidable (Clean metadataPatch))
  | .deliverToolInvocationCancel _ _ => Classical.propDecidable _
  | .complete .. | .invoke .. | .deliverPendingToolInvocationCancels _ | .tick _ => isTrue trivial
  | .publish _ | .scanning _ _ | .beginning .. | .resolving _ | .claiming .. | .fetching .. | .marking _ _ => isFalse id

instance (dates : Dates) (shared : Shared) (call : Call) (move : Move) : Decidable ((service dates).permits shared call move) :=
  match move with
  | .draw claimId => inferInstanceAs (Decidable (claimId ∉ shared.drawn))
  | .next | .lost | .fail | .resolved _ | .answered _ => isTrue trivial

def sampleOptions : DeliveryOptions where
  serverRemoteBaseUrl := some "http://hand"
  serverRemoteAuthToken := some "token"
  maxAttempts := none
  retryBaseMs := none
  retryMaxMs := none
  deliveryLeaseMs := none

/-- The time is that of the first of the two sample instants. -/
def start : World Shared Call := ⟨.initial 1785542400000, []⟩

def scanned : List (Turn Call Move) :=
  [.start (.start Proofs.InvocationStores.sampleInput Proofs.InvocationStores.sampleRun), .advance 0 .next,
    .start (.request "i1" (some "stop") .empty), .advance 1 .next,
    .start (.deliverPendingToolInvocationCancels sampleOptions), .advance 2 .next, .advance 2 .next, .advance 2 (.draw "w1:1"),
    .advance 2 (.resolved ⟨none, none, none⟩), .advance 2 .next]

def answered : List (Turn Call Move) := [.advance 2 (.answered (.responded true 200 (some true))), .advance 2 .next]

theorem sampleDates_lawful : Lawful Proofs.InvocationStores.sampleDates := by
  intro time text read written timed
  simp only [Proofs.InvocationStores.sampleDates] at written timed
  split at written
  next first =>
    rw [← Option.some.inj written, if_pos rfl] at timed
    rw [first, Option.some.inj timed]
  next =>
    split at written
    next second =>
      rw [← Option.some.inj written, if_neg (by decide), if_pos rfl] at timed
      rw [second, Option.some.inj timed]
    next => cases written

theorem deliveries_orderly_scanned : ∃ world later : World Shared Call,
    Run (service Proofs.InvocationStores.sampleDates) start world ∧
      Run (service Proofs.InvocationStores.sampleDates) world later ∧
      world.shared.claims.length = 1 ∧ later.shared.outcomes.length = 1 ∧
      Orderly world.shared ∧ Final world.shared later.shared := by
  obtain ⟨world, played⟩ : ∃ world, start.play (service Proofs.InvocationStores.sampleDates) scanned = some world := ⟨_, rfl⟩
  have run : Run (service Proofs.InvocationStores.sampleDates) start world := World.run_of_play _ played
  obtain ⟨later, more⟩ : ∃ later, world.play (service Proofs.InvocationStores.sampleDates) answered = some later := by
    cases played
    exact ⟨_, rfl⟩
  have rest : Run (service Proofs.InvocationStores.sampleDates) world later := World.run_of_play _ more
  refine ⟨world, later, run, rest, ?_, ?_, deliveries_orderly sampleDates_lawful run rest⟩
  all_goals
    cases played
    cases more
    rfl

def failuresOf (outcomes : List Outcome) (invocationId : String) : Int :=
  outcomes.countP fun outcome => outcome.invocationId = invocationId && isFailure outcome.kind

/-- The first attempt succeeds, and is counted. -/
theorem success_is_counted : ¬ ∀ (dates : Dates) (clock : Int) (world : World Shared Call), Lawful dates →
    Run (service dates) ⟨.initial clock, []⟩ world → ∀ invocationId row, world.shared.rows.get invocationId = some row →
      getAttemptCount row.metadata = failuresOf world.shared.outcomes invocationId := by
  intro counted
  obtain ⟨world, played⟩ : ∃ world, start.play (service Proofs.InvocationStores.sampleDates) (scanned ++ answered) = some world :=
    ⟨_, rfl⟩
  have run : Run (service Proofs.InvocationStores.sampleDates) start world := World.run_of_play _ played
  obtain ⟨row, found, attempts⟩ : ∃ row, world.shared.rows.get "i1" = some row ∧ getAttemptCount row.metadata = 1 := by
    cases played
    exact ⟨_, rfl, rfl⟩
  have none : failuresOf world.shared.outcomes "i1" = 0 := by
    cases played
    rfl
  have same := counted _ _ world sampleDates_lawful run "i1" row found
  rw [attempts, none] at same
  cases same

/-! How often one cancellation is attempted. -/

/-- The most attempts that were allowed have been made, and the last one has ended the delivery. -/
def Spent (outcomes : List Outcome) (invocationId : String) (limit : Int) : Prop :=
  attemptsOf outcomes invocationId = limit → ∃ outcome ∈ outcomes, outcome.invocationId = invocationId ∧ outcome.kind.isTerminal

theorem attempts_le {limit : Int} (positive : 1 ≤ limit) (invocationId : String) (outcomes : List Outcome)
    (configured : ∀ outcome ∈ outcomes, outcome.maxAttempts ≤ limit)
    (deadLetters : ∀ before outcome after, outcomes = before ++ outcome :: after → isFailure outcome.kind →
      (outcome.kind = .deadLetter ↔ outcome.maxAttempts ≤ attemptsOf before outcome.invocationId + 1))
    (ends : ∀ before outcome after, outcomes = before ++ outcome :: after → outcome.kind.isTerminal →
      ∀ later ∈ after, later.invocationId ≠ outcome.invocationId) :
    attemptsOf outcomes invocationId ≤ limit ∧ Spent outcomes invocationId limit := by
  induction outcomes using List.reverseRecOn with
  | nil =>
    have none : attemptsOf [] invocationId = 0 := rfl
    rw [Spent, none]
    exact ⟨by omega, fun same => by omega⟩
  | append_singleton earlier last ih =>
    obtain ⟨within, spent⟩ := ih (fun outcome member => configured outcome (List.mem_append_left _ member))
      (fun before outcome after same => deadLetters before outcome (after ++ [last]) (by rw [same, List.append_assoc, List.cons_append]))
      (fun before outcome after same terminal later member =>
        ends before outcome (after ++ [last]) (by rw [same, List.append_assoc, List.cons_append]) terminal later (List.mem_append_left _ member))
    rw [Spent, attemptsOf_concat]
    split
    next counted =>
      obtain ⟨rfl, attempt⟩ : last.invocationId = invocationId ∧ isAttempt last.kind = true := by simpa using counted
      have below : attemptsOf earlier last.invocationId ≠ limit := by
        intro same
        obtain ⟨outcome, member, own, terminal⟩ := spent same
        obtain ⟨before, after, rfl⟩ := List.append_of_mem member
        exact ends before outcome (after ++ [last]) (by simp) terminal last (by simp) own.symm
      refine ⟨by omega, fun same => ⟨last, by simp, rfl, ?_⟩⟩
      cases kind : last.kind with
      | retryScheduled =>
        have scheduled := deadLetters earlier last [] rfl (by rw [kind]; rfl)
        have allowed := configured last (by simp)
        cases kind.symm.trans (scheduled.mpr (by omega))
      | _ => rfl
    next =>
      rw [Int.add_zero]
      refine ⟨within, fun same => ?_⟩
      obtain ⟨outcome, member, rest⟩ := spent same
      exact ⟨outcome, List.mem_append_left _ member, rest⟩

/-- However often it is scanned, no more attempts are recorded of an invocation than its deliveries allow, or one. -/
theorem attempts_bounded (lawful : Lawful dates) {clock : Int} {world : World Shared Call}
    (run : Run (service dates) ⟨.initial clock, []⟩ world) {limit : Int}
    (configured : ∀ outcome ∈ world.shared.outcomes, outcome.maxAttempts ≤ limit) :
    (∀ invocationId, attemptsOf world.shared.outcomes invocationId ≤ max 1 limit) ∧
      ∀ invocationId row, world.shared.rows.get invocationId = some row → getAttemptCount row.metadata ≤ max 1 limit := by
  have start : (outline dates).Holds ⟨.initial clock, []⟩ := .start (valid_initial dates clock)
  have valid : Valid dates world.shared := (start.run (outline_sound lawful) run).1.shared
  have bounded (invocationId : String) : attemptsOf world.shared.outcomes invocationId ≤ max 1 limit :=
    (attempts_le (le_max_left _ _) invocationId _ (fun outcome member => (configured outcome member).trans (le_max_right _ _))
      valid.deadLetters valid.ends).1
  exact ⟨bounded, fun invocationId row found => valid.orderly.attempts invocationId row found ▸ bounded invocationId⟩

theorem attempts_bounded_scanned : ∃ world : World Shared Call, Run (service Proofs.InvocationStores.sampleDates) start world ∧
    attemptsOf world.shared.outcomes "i1" = 1 ∧ attemptsOf world.shared.outcomes "i1" ≤ max 1 3 := by
  obtain ⟨world, played⟩ : ∃ world, start.play (service Proofs.InvocationStores.sampleDates) (scanned ++ answered) = some world :=
    ⟨_, rfl⟩
  have run : Run (service Proofs.InvocationStores.sampleDates) start world := World.run_of_play _ played
  have configured : world.shared.outcomes.all (fun outcome => outcome.maxAttempts ≤ 3) = true ∧ attemptsOf world.shared.outcomes "i1" = 1 := by
    cases played
    exact ⟨rfl, rfl⟩
  have allowed : ∀ outcome ∈ world.shared.outcomes, outcome.maxAttempts ≤ 3 := by simpa using configured.1
  exact ⟨world, run, configured.2, (attempts_bounded sampleDates_lawful run allowed).1 "i1"⟩

end AgentSaas.Proofs.CancelDelivery
