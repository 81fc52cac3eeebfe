import AgentSaas.Billing.Allowance
import AgentSaas.Proofs.BillingPeriods

/-! A reversal gives back what its debit took, once: to the same run, the same member and the
month of the debit. A call whose key belongs to another row only opens its account. -/

namespace AgentSaas.Proofs.Reversals
open AgentSaas.Transactions AgentSaas.Billing BillingCommits BillingRefinement BillingPeriods BillingUsage TransactionSafety

variable {hashing : Hashing} {allowed : Request → Prop} {a b db : Database} {entry original row : BillingLedgerEntry}

structure Reverses (original row : BillingLedgerEntry) : Prop where
  debit : original.type = .debit
  reversal : row.type = .reversal
  tenantId : row.tenantId = original.tenantId
  userId : row.userId = truthy original.userId
  runId : row.runId = truthy original.runId
  credits : row.creditsDeltaMicro = -original.creditsDeltaMicro
  positive : 0 < row.creditsDeltaMicro

structure Reversed (db : Database) : Prop where
  ids : (db.ledger.map (·.id)).Nodup
  keys : (db.ledger.map (·.idempotencyKey)).Nodup
  originals : ∀ row ∈ db.ledger, ∀ id, row.reversesLedgerId = some id →
    ∃ original ∈ db.ledger, original.id = id ∧ Reverses original row
  single : ∀ row ∈ db.ledger, ∀ other ∈ db.ledger, ∀ id, row.reversesLedgerId = some id →
    other.reversesLedgerId = some id → row = other

theorem posts_of_commit (commit : Commit hashing allowed a b) : b.ledger = a.ledger ∨
    ∃ entry, Posted a entry b ∧
      ∀ id, entry.reversesLedgerId = some id → ∃ original ∈ a.ledger, original.id = id ∧ Reverses original entry := by
  cases commit with
  | settings | account | usage => exact .inl rfl
  | adjusted permitted keyed balance unused =>
    exact .inr ⟨_, .post unused balance rfl, fun _ absent => by cases absent⟩
  | @reversed input original before outside permitted balance found same debit positive unused =>
    refine .inr ⟨_, postReversal_posted unused balance rfl, fun id reverses => ?_⟩
    obtain rfl := Option.some.inj reverses
    have credits : reversalCredits (normalizeLedgerEntry original) = -original.creditsDeltaMicro := by
      simp only [reversalCredits] at positive
      simp only [reversalCredits, normalizeLedgerEntry]
      omega
    exact ⟨original, found, rfl, debit, rfl, same.1.symm, rfl, rfl, credits, positive⟩
  | settled permitted charges balance seen pending unused =>
    exact .inr ⟨_, Posted.after (.post unused balance Int.sub_eq_add_neg) (chargeMember_same _ _ _ _), fun _ absent => by cases absent⟩
  | charged permitted charges positive account balance unused =>
    exact .inr ⟨_, .post unused balance Int.sub_eq_add_neg, fun _ absent => by cases absent⟩
  | runCharged permitted charges positive run balance unused =>
    exact .inr ⟨_, Posted.after (.post unused balance Int.sub_eq_add_neg) (chargeMember_same _ _ _ _), fun _ absent => by cases absent⟩

theorem Reversed.append (reversed : Reversed a) (posted : Posted a entry b)
    (reverses : ∀ id, entry.reversesLedgerId = some id → ∃ original ∈ a.ledger, original.id = id ∧ Reverses original entry) :
    Reversed b := by
  have fresh := conflicts_eq_false.mp posted.unused
  have member {row : BillingLedgerEntry} (present : row ∈ b.ledger) : row ∈ a.ledger ∨ row = entry := by
    rw [posted.ledger, List.mem_append, List.mem_singleton] at present
    exact present
  refine ⟨?_, ?_, ?_, ?_⟩
  · rw [posted.ledger, List.map_append, List.nodup_append]
    refine ⟨reversed.ids, List.nodup_singleton _, ?_⟩
    intro id earlier other later same
    obtain ⟨row, present, rfl⟩ := List.mem_map.mp earlier
    obtain rfl := List.mem_singleton.mp later
    exact (fresh row present).1 same
  · rw [posted.ledger, List.map_append, List.nodup_append]
    refine ⟨reversed.keys, List.nodup_singleton _, ?_⟩
    intro key earlier other later same
    obtain ⟨row, present, rfl⟩ := List.mem_map.mp earlier
    obtain rfl := List.mem_singleton.mp later
    exact (fresh row present).2.1 same
  · intro row present id named
    have known : ∃ original ∈ a.ledger, original.id = id ∧ Reverses original row := by
      obtain old | rfl := member present
      · exact reversed.originals row old id named
      · exact reverses id named
    obtain ⟨original, inside, rest⟩ := known
    exact ⟨original, posted.ledger ▸ List.mem_append_left _ inside, rest⟩
  · intro row present other also id first second
    obtain old | rfl := member present
    · obtain older | rfl := member also
      · exact reversed.single row old other older id first second
      · exact ((fresh row old).2.2 id second first).elim
    · obtain older | rfl := member also
      · exact ((fresh other older).2.2 id first second).elim
      · rfl

theorem reversed_reachable (reachable : Reachable hashing allowed db) : Reversed db := by
  induction reachable with
  | refl => exact ⟨List.nodup_nil, List.nodup_nil, fun _ member => (List.not_mem_nil member).elim, fun _ member => (List.not_mem_nil member).elim⟩
  | @tail before after _ commit ih =>
    obtain ledger | ⟨entry, posted, reverses⟩ := posts_of_commit commit
    · obtain ⟨ids, keys, originals, single⟩ := ih
      exact ⟨ledger ▸ ids, ledger ▸ keys, ledger ▸ originals, ledger ▸ single⟩
    · exact ih.append posted reverses

/-! What is used, with and without the debit. -/

/-- The tables as they would be had the debit not happened. -/
def without (db : Database) (original row : BillingLedgerEntry) : Database :=
  { db with ledger := db.ledger.filter fun entry => entry.id ≠ original.id ∧ entry.id ≠ row.id }

theorem sum_filter (rows : List BillingLedgerEntry) (own : BillingLedgerEntry → Bool) (amount : BillingLedgerEntry → Int) :
    ((rows.filter own).map amount).sum = (rows.map fun entry => if own entry then amount entry else 0).sum := by
  rw [List.sum_map_ite]
  simp

theorem Reverses.apart (reverses : Reverses original row) (ids : (db.ledger.map (·.id)).Nodup) (debit : original ∈ db.ledger)
    (reversal : row ∈ db.ledger) : original.id ≠ row.id := by
  intro same
  have equal := List.inj_on_of_nodup_map ids debit reversal same
  have wrong : LedgerType.debit = .reversal := reverses.debit.symm.trans (equal ▸ reverses.reversal)
  cases wrong

theorem sum_without (ids : (db.ledger.map (·.id)).Nodup) (debit : original ∈ db.ledger) (reversal : row ∈ db.ledger)
    (apart : original.id ≠ row.id) {amount : BillingLedgerEntry → Int} (cancel : amount original + amount row = 0) :
    ((without db original row).ledger.map amount).sum = (db.ledger.map amount).sum := by
  let kept (entry : BillingLedgerEntry) : Prop := entry.id ≠ original.id ∧ entry.id ≠ row.id
  have nodup : db.ledger.Nodup := List.Nodup.of_map _ ids
  have left : (db.ledger.filter fun entry => ¬kept entry).Perm [original, row] := by
    refine (List.perm_ext_iff_of_nodup (nodup.filter _) ?_).mpr fun entry => ?_
    · simpa using fun same : original = row => apart (congrArg _ same)
    · simp only [List.mem_filter, kept, decide_eq_true_eq, not_and_or, not_not, List.mem_cons, List.not_mem_nil, or_false]
      constructor
      · rintro ⟨member, same | same⟩
        · exact .inl (List.inj_on_of_nodup_map ids member debit same)
        · exact .inr (List.inj_on_of_nodup_map ids member reversal same)
      · rintro (rfl | rfl)
        · exact ⟨debit, .inl rfl⟩
        · exact ⟨reversal, .inr rfl⟩
  have split := List.sum_map_filter_add_sum_map_filter_not kept amount db.ledger
  rw [(left.map amount).sum_eq, List.map_cons, List.map_cons, List.map_nil, List.sum_cons, List.sum_cons, List.sum_nil] at split
  change ((db.ledger.filter fun entry => kept entry).map amount).sum = _
  omega

theorem truthy_iff {text : Option String} {value : String} (nonempty : value ≠ "") : truthy text = some value ↔ text = some value := by
  constructor
  · exact truthy_eq_some
  · rintro rfl
    simp [truthy, nonempty]

theorem counted_cancel (reverses : Reverses original row) : counted original + counted row = 0 := by
  rw [counted, counted, if_pos (.inl reverses.debit), if_pos (.inr (.inr reverses.reversal)), reverses.credits]
  omega

theorem cancel_if (reverses : Reverses original row) {first last : Bool} (same : first = last) :
    (if first then counted original else 0) + (if last then counted row else 0) = 0 := by
  subst same
  split
  · exact counted_cancel reverses
  · rfl

section Undone

variable (reversed : Reversed db) (debit : original ∈ db.ledger) (reversal : row ∈ db.ledger)
  (named : row.reversesLedgerId = some original.id)

include reversed debit reversal named

theorem reverses_of : Reverses original row := by
  obtain ⟨other, inside, same, reverses⟩ := reversed.originals row reversal _ named
  rwa [← List.inj_on_of_nodup_map reversed.ids inside debit same]

theorem runUsage_without {runId : String} (nonempty : runId ≠ "") (tenantId : String) :
    (without db original row).runUsage tenantId runId = db.runUsage tenantId runId := by
  have reverses := reverses_of reversed debit reversal named
  let own (entry : BillingLedgerEntry) : Bool := entry.tenantId == tenantId && entry.runId == some runId
  have same : own original = own row := by
    have run : (row.runId == some runId) = (original.runId == some runId) := by
      rw [Bool.eq_iff_iff, beq_iff_eq, beq_iff_eq, reverses.runId, truthy_iff nonempty]
    simp only [own, reverses.tenantId, run]
  change max 0 (((without db original row).ledger.filter own).map counted).sum = max 0 ((db.ledger.filter own).map counted).sum
  rw [sum_filter, sum_filter]
  congr 1
  exact sum_without reversed.ids debit reversal (reverses.apart reversed.ids debit reversal) (cancel_if reverses same)

theorem ledgerTime_without (member : entry ∈ (without db original row).ledger) :
    (without db original row).ledgerTime entry = db.ledgerTime entry := by
  obtain ⟨inside, kept⟩ := List.mem_filter.mp member
  obtain ⟨-, apart⟩ := of_decide_eq_true kept
  cases reverses : entry.reversesLedgerId with
  | none => rw [ledgerTime_own _ reverses, ledgerTime_own _ reverses]
  | some id =>
    obtain ⟨other, present, rfl, undone⟩ := reversed.originals entry inside id reverses
    have stays : other ∈ (without db original row).ledger := by
      refine List.mem_filter.mpr ⟨present, decide_eq_true ⟨fun same => ?_, fun same => ?_⟩⟩
      · exact apart (congrArg _ (reversed.single entry inside row reversal _ (same ▸ reverses) named))
      · have equal := List.inj_on_of_nodup_map reversed.ids present reversal same
        have wrong : LedgerType.debit = .reversal :=
          undone.debit.symm.trans (equal ▸ (reverses_of reversed debit reversal named).reversal)
        cases wrong
    have ids : ((without db original row).ledger.map (·.id)).Nodup := reversed.ids.sublist (List.filter_sublist.map _)
    rw [ledgerTime_original ids stays reverses, ledgerTime_original reversed.ids present reverses]

theorem memberUsage_without {userId : String} (nonempty : userId ≠ "") (tenantId : String) (period : BeijingMonth) :
    (without db original row).memberUsage tenantId userId period = db.memberUsage tenantId userId period := by
  have reverses := reverses_of reversed debit reversal named
  have time : db.ledgerTime original = db.ledgerTime row := by
    rw [ledgerTime_original reversed.ids debit named]
    cases also : original.reversesLedgerId with
    | none => exact ledgerTime_own db also
    | some id =>
      obtain ⟨_, _, _, undone⟩ := reversed.originals original debit id also
      have wrong : LedgerType.debit = .reversal := reverses.debit.symm.trans undone.reversal
      cases wrong
  have same : isMembers db tenantId userId period original = isMembers db tenantId userId period row := by
    have user : (row.userId == some userId) = (original.userId == some userId) := by
      rw [Bool.eq_iff_iff, beq_iff_eq, beq_iff_eq, reverses.userId, truthy_iff nonempty]
    simp only [isMembers, reverses.tenantId, user, time]
  have own : (without db original row).ledger.filter (isMembers (without db original row) tenantId userId period) =
      (without db original row).ledger.filter (isMembers db tenantId userId period) := by
    apply List.filter_congr
    intro entry member
    simp only [isMembers, ledgerTime_without reversed debit reversal named member]
  rw [memberUsage_eq, memberUsage_eq, owed, owed, own, sum_filter, sum_filter]
  congr 1
  exact sum_without reversed.ids debit reversal (reverses.apart reversed.ids debit reversal) (cancel_if reverses same)

end Undone

def Opens (tenantId : String) (a b : Database) : Prop :=
  b = a ∨ a.accounts tenantId = none ∧ b = a.setAccount tenantId 0

def Refused (input : ReverseDebitInput) (reply : Reply) : Prop :=
  reply = .reversed input (.error (.ledgerReversalConflict "该防重标识已用于其他积分流水"))

theorem key_found (reversed : Reversed db) (member : row ∈ db.ledger) :
    db.ledger.find? (·.idempotencyKey == row.idempotencyKey) = some row := by
  cases found : db.ledger.find? (·.idempotencyKey == row.idempotencyKey) with
  | none => simpa using List.find?_eq_none.mp found row member
  | some other =>
    have same : other.idempotencyKey = row.idempotencyKey := by simpa using List.find?_some found
    rw [List.inj_on_of_nodup_map reversed.keys (List.mem_of_find?_eq_some found) member same]

theorem taken_locked {input : ReverseDebitInput} (key : row.idempotencyKey = input.idempotencyKey)
    (other : row.reversesLedgerId ≠ some input.ledgerId) {transaction : Open Database Lock} (blank : transaction.patch = id)
    (before : Int) :
    ((billing hashing allowed).adding (row ∈ ·.ledger)).Confined (Opens input.tenantId) (Refused input)
      (reverseDebitLocked input before >>= fun value => .returned (.reversed input value)) transaction db := by
  intro later valid _
  have found : later.ledger.find? (·.idempotencyKey == input.idempotencyKey) = some row :=
    key ▸ key_found (reversed_reachable valid.1) valid.2
  have answer : (getLedgerByIdempotencyKey input.idempotencyKey).result (transaction.patch later) =
      some (normalizeLedgerEntry row) := by
    rw [blank]
    exact congrArg (Option.map normalizeLedgerEntry) found
  rw [answer]
  have refused : ¬(normalizeLedgerEntry row).reversesLedgerId = some input.ledgerId := fun same => other (truthy_eq_some same)
  change Rules.Confined _ _ _ ((if _ then _ else _ : Session _).bind _) _ _
  rw [if_neg refused]
  exact fun _ _ _ => rfl

theorem taken_confined {input : ReverseDebitInput} (key : row.idempotencyKey = input.idempotencyKey)
    (other : row.reversesLedgerId ≠ some input.ledgerId) :
    ((billing hashing allowed).adding (row ∈ ·.ledger)).Confined (Opens input.tenantId) (Refused input)
      ((Request.reverseDebit input).run hashing) .closed db := by
  intro snapshot _ _ later valid held
  have written : Opens input.tenantId later ((insertAccount input.tenantId).write snapshot later) ∧
      (((insertAccount input.tenantId).write snapshot later).accounts input.tenantId).isSome := by
    obtain ⟨same, present⟩ | ⟨same, absent⟩ := insertAccount_write input.tenantId snapshot later
    · rw [same]
      exact ⟨.inl rfl, present⟩
    · rw [same]
      exact ⟨.inr ⟨absent, rfl⟩, by simp [Database.setAccount]⟩
  refine ⟨written.1, fun _ => ?_⟩
  intro third _ moved
  have opened : (third.accounts input.tenantId).isSome := (extends_of_commits moved.1).accounts _ written.2
  obtain ⟨balance, present⟩ := Option.isSome_iff_exists.mp opened
  have answer : (selectAccount input.tenantId).result ((Open.closed : Open Database Lock).patch third) = some balance := present
  rw [answer]
  exact taken_locked key other rfl balance

structure ReversedOnce (world : World Database Lock Outside Reply) : Prop where
  single : ∀ debit ∈ world.db.ledger, ∀ row ∈ world.db.ledger, ∀ other ∈ world.db.ledger,
    row.reversesLedgerId = some debit.id → other.reversesLedgerId = some debit.id → row = other
  credits : ∀ debit ∈ world.db.ledger, ∀ row ∈ world.db.ledger, row.reversesLedgerId = some debit.id →
    debit.type = .debit ∧ row.creditsDeltaMicro = -debit.creditsDeltaMicro
  answered : ∀ (index : Nat) input entry, world.calls[index]? = some (.finished (.reversed input (.ok entry))) →
    ∃ row ∈ world.db.ledger, row.reversesLedgerId = some input.ledgerId ∧ entry = normalizeLedgerEntry row
  runUsage : ∀ debit ∈ world.db.ledger, ∀ row ∈ world.db.ledger, row.reversesLedgerId = some debit.id →
    ∀ tenantId runId, runId ≠ "" → world.db.runUsage tenantId runId = (without world.db debit row).runUsage tenantId runId
  memberUsage : ∀ debit ∈ world.db.ledger, ∀ row ∈ world.db.ledger, row.reversesLedgerId = some debit.id →
    ∀ tenantId userId period, userId ≠ "" →
      world.db.memberUsage tenantId userId period = (without world.db debit row).memberUsage tenantId userId period

/-- One more call, which has the number of those that were there. -/
def begun (hashing : Hashing) (world : World Database Lock Outside Reply) (request : Request) : World Database Lock Outside Reply :=
  { world with calls := world.calls ++ [.running .closed (request.run hashing)] }

/-- Every step of the call writes nothing but its account, and it fails. -/
structure Fails (input : ReverseDebitInput) (index : Nat) (world : World Database Lock Outside Reply) : Prop where
  steps : ∀ answer after, world.advance index answer = some after → Opens input.tenantId world.db after.db
  reply : ∀ reply, world.calls[index]? = some (.finished reply) → Refused input reply

theorem reversedOnce {world : World Database Lock Outside Reply} (run : Run (store hashing allowed) ⟨.empty, []⟩ world) :
    ReversedOnce world := by
  obtain ⟨reachable, answered⟩ := refines run
  have reversed := reversed_reachable reachable
  refine ⟨?_, ?_, ?_, ?_, ?_⟩
  · exact fun debit _ row member other also => reversed.single row member other also debit.id
  · intro debit member row reversal named
    have reverses := reverses_of reversed member reversal named
    exact ⟨reverses.debit, reverses.credits⟩
  · exact fun index input entry found => answered index _ found
  · exact fun debit member row reversal named tenantId runId nonempty =>
      (runUsage_without reversed member reversal named nonempty tenantId).symm
  · exact fun debit member row reversal named tenantId userId period nonempty =>
      (memberUsage_without reversed member reversal named nonempty tenantId period).symm

theorem fails {world final : World Database Lock Outside Reply} (run : Run (store hashing allowed) ⟨.empty, []⟩ world)
    {input : ReverseDebitInput} (permitted : allowed (.reverseDebit input)) (taken : row ∈ world.db.ledger)
    (key : row.idempotencyKey = input.idempotencyKey) (other : row.reversesLedgerId ≠ some input.ledgerId)
    (more : Run (store hashing allowed) (begun hashing world (.reverseDebit input)) final) :
    Fails input world.calls.length final := by
  have lasts : ∀ {a b : Database}, (billing hashing allowed).grows a b → row ∈ a.ledger → row ∈ b.ledger :=
    fun grows => ((extends_of_commits grows).ledger.subset ·)
  have first := ((Rules.Holds.start (.refl : Reachable hashing allowed .empty)).run covers run).1
  have opened : (billing hashing allowed).Holds _ (begun hashing world (.reverseDebit input)) :=
    first.entering covers ⟨_, permitted, rfl⟩
  have covered : (billing hashing allowed).Covers (store hashing allowed) fun _ => Answered hashing allowed := covers
  have adding := covered.adding lasts
  have now : ((billing hashing allowed).adding (row ∈ ·.ledger)).Holds _ (begun hashing world (.reverseDebit input)) :=
    opened.adding lasts taken fun _ _ _ _ _ kept => kept
  have bound : ((billing hashing allowed).adding (row ∈ ·.ledger)).BoundAt (Opens input.tenantId) (Refused input)
      world.calls.length (begun hashing world (.reverseDebit input)) := by
    intro call found
    rw [begun, List.getElem?_concat_length] at found
    obtain rfl := Option.some.inj found
    exact taken_confined key other
  have still := bound.run adding now (by simp [begun]) more
  have held := (now.run adding more).1
  refine ⟨fun answer after advanced => ?_, fun reply found => still _ found⟩
  obtain same | opens := (still.advance held.invariant (held.advance adding advanced trivial).1.invariant advanced).2
  · exact .inl same
  · exact opens

/-- Whatever the order of the calls and of their steps. -/
theorem reversed_once (hashing : Hashing) (allowed : Request → Prop) {world : World Database Lock Outside Reply}
    (run : Run (store hashing allowed) ⟨.empty, []⟩ world) :
    ReversedOnce world ∧ ∀ (input : ReverseDebitInput) row final, allowed (.reverseDebit input) → row ∈ world.db.ledger →
      row.idempotencyKey = input.idempotencyKey → row.reversesLedgerId ≠ some input.ledgerId →
      Run (store hashing allowed) (begun hashing world (.reverseDebit input)) final → Fails input world.calls.length final :=
  ⟨reversedOnce run, fun _ _ _ permitted taken key other more => fails run permitted taken key other more⟩

def fee : FixedDebitInput := ⟨"acme", some "u1", some "ada", "fee", "tool", 20000, 0, none, some "s1", some "r1", none⟩

def requests : List Request :=
  [.changeSettings (fun pricing => pricing) fun _ _ => some billed, .chargeFixedDebit fee,
    .reverseDebit ⟨"acme", "f", "undo", "wrong", "admin"⟩]

def takenBack : Option (World Database Lock Outside Reply) :=
  ((World.mk Database.empty []).spawn (requests.map (Request.run ⟨id⟩))).play (fun _ _ _ => true)
    (List.replicate 3 (0, ⟨"a", 1⟩) ++ List.replicate 23 (1, ⟨"f", 2⟩) ++ List.replicate 13 (2, ⟨"g", 3⟩))

theorem run_of_takenBack {world : World Database Lock Outside Reply} (played : takenBack = some world) :
    Run (store ⟨id⟩ fun _ => True) ⟨.empty, []⟩ world := by
  have started : Run (store ⟨id⟩ fun _ => True) (World.mk Database.empty [])
      (World.spawn ⟨.empty, []⟩ (requests.map (Request.run ⟨id⟩))) := by
    refine run_of_spawn _ fun program member _ => ?_
    obtain ⟨request, _, rfl⟩ := List.mem_map.mp member
    exact ⟨request, trivial, rfl⟩
  exact started.trans (run_of_play (fun _ _ _ _ _ => trivial) played)

def stranger : ReverseDebitInput := ⟨"other", "f", "fee", "again", "admin"⟩

/-- The key belongs to a row that does not reverse this debit. -/
def taken (input : ReverseDebitInput) (row : BillingLedgerEntry) : Bool :=
  row.idempotencyKey == input.idempotencyKey && row.reversesLedgerId != some input.ledgerId

theorem taken_row {world : World Database Lock Outside Reply} {input : ReverseDebitInput} (found : world.db.ledger.any (taken input)) :
    ∃ row ∈ world.db.ledger, row.idempotencyKey = input.idempotencyKey ∧ row.reversesLedgerId ≠ some input.ledgerId := by
  obtain ⟨row, member, taken⟩ := List.any_eq_true.mp found
  simp only [Reversals.taken, Bool.and_eq_true, beq_iff_eq, bne_iff_ne] at taken
  exact ⟨row, member, taken⟩

theorem taken_back : ∃ world : World Database Lock Outside Reply, Run (store ⟨id⟩ fun _ => True) ⟨.empty, []⟩ world ∧
    world.db.ledger.map (·.creditsDeltaMicro) = [-20000, 20000] ∧ ReversedOnce world ∧
    Fails stranger world.calls.length (begun ⟨id⟩ world (.reverseDebit stranger)) := by
  have seen : takenBack.map (fun world => (world.db.ledger.map (·.creditsDeltaMicro), world.db.ledger.any (taken stranger))) =
      some ([-20000, 20000], true) := by decide +kernel
  obtain ⟨world, played, same⟩ := Option.map_eq_some_iff.mp seen
  obtain ⟨credits, found⟩ := Prod.mk.inj same
  obtain ⟨row, member, key, other⟩ := taken_row found
  have run := run_of_takenBack played
  obtain ⟨once, refused⟩ := reversed_once ⟨id⟩ (fun _ => True) run
  exact ⟨world, run, credits, once, refused stranger row _ trivial member key other .refl⟩

def opening : Option (World Database Lock Outside Reply × World Database Lock Outside Reply × World Database Lock Outside Reply) :=
  takenBack.bind fun world =>
    ((begun ⟨id⟩ world (.reverseDebit stranger)).advance world.calls.length ⟨"h", 4⟩).bind fun final =>
      (final.advance world.calls.length ⟨"h", 4⟩).map fun after => (world, final, after)

/-- Before it is refused, the call opens the account of its tenant. -/
theorem refused_with_account : ¬ ∀ (hashing : Hashing) (allowed : Request → Prop) (world : World Database Lock Outside Reply),
    Run (store hashing allowed) ⟨.empty, []⟩ world → ∀ (input : ReverseDebitInput) row final,
    allowed (.reverseDebit input) → row ∈ world.db.ledger → row.idempotencyKey = input.idempotencyKey →
    row.reversesLedgerId ≠ some input.ledgerId →
    Run (store hashing allowed) (begun hashing world (.reverseDebit input)) final → ∀ answer after,
    final.advance world.calls.length answer = some after → after.db = final.db := by
  intro claimed
  have seen : opening.map (fun (world, final, after) =>
      (world.db.ledger.any (taken stranger), final.db.accounts "other", after.db.accounts "other")) =
      some (true, none, some 0) := by decide +kernel
  obtain ⟨⟨world, final, after⟩, opened, same⟩ := Option.map_eq_some_iff.mp seen
  obtain ⟨found, accounts⟩ := Prod.mk.inj same
  obtain ⟨absent, present⟩ := Prod.mk.inj accounts
  obtain ⟨row, member, key, other⟩ := taken_row found
  obtain ⟨begin, played, steps⟩ := Option.bind_eq_some_iff.mp opened
  obtain ⟨middle, queried, last⟩ := Option.bind_eq_some_iff.mp steps
  obtain ⟨next, committed, equal⟩ := Option.map_eq_some_iff.mp last
  cases equal
  have more : Run (store ⟨id⟩ fun _ => True) (begun ⟨id⟩ world (.reverseDebit stranger)) final :=
    .single (.advance queried trivial)
  have still := claimed ⟨id⟩ (fun _ => True) world (run_of_takenBack played) stranger row final trivial member key other more _ _ committed
  rw [still, absent] at present
  cases present

/-- What the books say at one time, and what is left of it at any later one. -/
structure BooksKept (middle final : Database) : Prop where
  ledger : middle.ledger <+: final.ledger
  usageEvents : middle.usageEvents <+: final.usageEvents
  ids : (final.ledger.map (·.id)).Nodup
  keys : (final.ledger.map (·.idempotencyKey)).Nodup
  originals : ∀ row ∈ final.ledger, ∀ id, row.reversesLedgerId = some id →
    ∃ debit ∈ final.ledger, debit.id = id ∧ Reverses debit row

/-- Whatever the calls are and wherever they stop, a posted row stays as it is, under an id and a key of its own. -/
theorem books_kept (hashing : Hashing) (allowed : Request → Prop) {middle final : World Database Lock Outside Reply}
    (run : Run (store hashing allowed) ⟨.empty, []⟩ middle) (onward : Run (store hashing allowed) middle final) :
    BooksKept middle.db final.db := by
  have holds := ((Rules.Holds.start (.refl : Reachable hashing allowed .empty)).run covers run).1
  obtain ⟨later, growth⟩ := holds.run covers onward
  have reversed := reversed_reachable later.invariant
  have extended := extends_of_commits growth
  exact ⟨extended.ledger, extended.usageEvents, reversed.ids, reversed.keys, reversed.originals⟩

theorem books_kept_taken_back : ∃ world : World Database Lock Outside Reply, Run (store ⟨id⟩ fun _ => True) ⟨.empty, []⟩ world ∧
    world.db.ledger.length = 2 ∧ BooksKept world.db world.db := by
  have seen : takenBack.map (fun world => world.db.ledger.length) = some 2 := by decide +kernel
  obtain ⟨world, played, rows⟩ := Option.map_eq_some_iff.mp seen
  have run := run_of_takenBack played
  exact ⟨world, run, rows, books_kept ⟨id⟩ (fun _ => True) run .refl⟩

end AgentSaas.Proofs.Reversals
