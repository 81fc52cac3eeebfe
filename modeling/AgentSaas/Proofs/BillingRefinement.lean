import AgentSaas.Proofs.BillingCommits
import AgentSaas.Proofs.TransactionSafety

/-! Every interleaving of the billing calls is a sequence of whole commits. A row
lock keeps what it was taken for, so what a call read earlier still holds when
it commits. -/

namespace AgentSaas.Proofs.BillingRefinement
open AgentSaas.Transactions AgentSaas.Billing BillingCommits TransactionSafety

variable {hashing : Hashing} {allowed : Request → Prop} {a b db : Database} {entry : BillingLedgerEntry}

def Keeps : Lock → Database → Database → Prop
  | .account tenantId, a, b =>
    b.accounts tenantId = a.accounts tenantId ∧ rowsOf b tenantId = rowsOf a tenantId ∧
      b.memberPeriods tenantId = a.memberPeriods tenantId
  | .run tenantId runId, a, b => b.debitedUsageEventIds tenantId runId = a.debitedUsageEventIds tenantId runId
  | .ledgerId id, a, b => ∀ row ∈ b.ledger, row.id = id → row ∈ a.ledger
  | .ledgerKey key, a, b => ∀ row ∈ b.ledger, row.idempotencyKey = key → row ∈ a.ledger
  | .ledgerReversal id, a, b => ∀ row ∈ b.ledger, row.reversesLedgerId = some id → row ∈ a.ledger
  | .usageId id, a, b => ∀ event ∈ b.usageEvents, event.id = id → event ∈ a.usageEvents
  | .usageKey key, a, b => ∀ event ∈ b.usageEvents, event.idempotencyKey = key → event ∈ a.usageEvents
  | .ledgerRow _, _, _ | .memberPeriod _ _ _, _, _ | .policy _, _, _ => True

theorem Keeps.refl (key : Lock) (db : Database) : Keeps key db db := by
  cases key with
  | account => exact ⟨rfl, rfl, rfl⟩
  | run => rfl
  | ledgerRow | memberPeriod | policy => trivial
  | _ => exact fun _ member _ => member

theorem Keeps.trans {key : Lock} {c : Database} (first : Keeps key a b) (last : Keeps key b c) : Keeps key a c := by
  cases key with
  | account => exact ⟨last.1.trans first.1, last.2.1.trans first.2.1, last.2.2.trans first.2.2⟩
  | run => exact Eq.trans last first
  | ledgerRow | memberPeriod | policy => trivial
  | _ => exact fun row member same => first row (last row member same) same

def billing (hashing : Hashing) (allowed : Request → Prop) : Rules Database Lock where
  invariant := Reachable hashing allowed
  grows := Commits hashing allowed
  keeps := Keeps
  permits _ _ _ _ := True
  grows_refl _ := .refl
  grows_trans first last := first.trans last
  keeps_refl := Keeps.refl
  keeps_trans := Keeps.trans

abbrev Safe (hashing : Hashing) (allowed : Request → Prop) (post : α → Database → Prop) (program : Session α)
    (transaction : Open Database Lock) (db : Database) : Prop :=
  (billing hashing allowed).Safe (fun value _ db => post value db) program transaction db

abbrev Moves (hashing : Hashing) (allowed : Request → Prop) (held : List Lock) (a b : Database) : Prop :=
  (billing hashing allowed).Moves held a b

theorem Keeps.sameTables (key : Lock) (ledger : b.ledger = a.ledger) (accounts : b.accounts = a.accounts)
    (usageEvents : b.usageEvents = a.usageEvents) (periods : b.memberPeriods = a.memberPeriods) :
    Keeps key a b := by
  cases key with
  | account => exact ⟨by rw [accounts], by rw [rowsOf, ledger, rowsOf], by rw [periods]⟩
  | run => simp only [Keeps, Database.debitedUsageEventIds, ledger]
  | ledgerRow | memberPeriod | policy => trivial
  | usageId | usageKey => exact fun _ member _ => usageEvents ▸ member
  | _ => exact fun _ member _ => ledger ▸ member

def indexLocks (entry : BillingLedgerEntry) : List Lock :=
  .ledgerId entry.id :: .ledgerKey entry.idempotencyKey :: (entry.reversesLedgerId.map Lock.ledgerReversal).toList

theorem Posted.keeps (posted : Posted a entry b) {key : Lock} (account : key ≠ .account entry.tenantId)
    (indexes : key ∉ indexLocks entry)
    (run : ∀ tenantId runId, Database.isUsageDebit entry tenantId runId = true → key ≠ .run tenantId runId) :
    Keeps key a b := by
  have old {row : BillingLedgerEntry} (member : row ∈ b.ledger) (different : row ≠ entry) : row ∈ a.ledger := by
    rw [posted.ledger] at member
    exact (List.mem_append.mp member).resolve_right fun new => different (List.mem_singleton.mp new)
  simp only [indexLocks, List.mem_cons, Option.mem_toList, not_or] at indexes
  cases key with
  | account tenantId =>
    have other : tenantId ≠ entry.tenantId := fun same => account (same ▸ rfl)
    refine ⟨?_, ?_, posted.periods _ other⟩
    · rw [posted.accounts, Function.update_of_ne other]
    · rw [rowsOf, rowsOf, posted.ledger, List.filter_append]
      simp [Ne.symm other]
  | run tenantId runId =>
    have uncounted : Database.isUsageDebit entry tenantId runId = false := by
      by_contra counted
      exact run tenantId runId (by simpa using counted) rfl
    simp only [Keeps, Database.debitedUsageEventIds, posted.ledger, List.filter_append, List.filter_cons,
      uncounted, List.filter_nil, List.append_nil, Bool.false_eq_true, if_false]
  | ledgerId id => exact fun row member same => old member fun equal => indexes.1 (by rw [← same, equal])
  | ledgerKey id => exact fun row member same => old member fun equal => indexes.2.1 (by rw [← same, equal])
  | ledgerReversal id =>
    refine fun row member same => old member fun equal => indexes.2.2 ?_
    rw [← equal, same, Option.map_some]
  | usageId | usageKey => exact fun event member _ => posted.usageEvents ▸ member
  | ledgerRow | memberPeriod | policy => trivial

theorem commits_of_posted {held : List Lock} (reachable : Reachable hashing allowed a)
    (commit : Commit hashing allowed a b) (posted : Posted a entry b)
    (account : Lock.account entry.tenantId ∈ held) (indexes : indexLocks entry ⊆ held)
    (run : ∀ tenantId runId, Database.isUsageDebit entry tenantId runId = true → Lock.run tenantId runId ∈ held) :
    (billing hashing allowed).Commits held a b := by
  intro others apart _
  refine ⟨reachable.tail commit, .single commit, fun key blocked => ?_⟩
  refine Posted.keeps posted ?_ ?_ ?_
  · exact fun same => apart _ account (same ▸ blocked)
  · exact fun inside => apart _ (indexes inside) blocked
  · exact fun tenantId runId counted same => apart _ (run tenantId runId counted) (same ▸ blocked)

theorem conflicts_kept {held : List Lock} (moved : Moves hashing allowed held a b) (indexes : indexLocks entry ⊆ held)
    (unused : a.conflicts entry = false) : b.conflicts entry = false := by
  have kept (key : Lock) (inside : key ∈ indexLocks entry) : Keeps key a b := moved.2 key (indexes inside)
  rw [conflicts_eq_false] at unused ⊢
  intro other member
  refine ⟨fun same => ?_, fun same => ?_, fun id reverses same => ?_⟩
  · exact (unused other (kept (.ledgerId entry.id) (by simp [indexLocks]) other member same)).1 same
  · exact (unused other (kept (.ledgerKey entry.idempotencyKey) (by simp [indexLocks]) other member same)).2.1 same
  · have blocked : Lock.ledgerReversal id ∈ indexLocks entry := by simp [indexLocks, reverses]
    exact (unused other (kept _ blocked other member same)).2.2 id reverses same

theorem account_kept {held : List Lock} {tenantId : String} (moved : Moves hashing allowed held a b)
    (owned : Lock.account tenantId ∈ held) : b.accounts tenantId = a.accounts tenantId :=
  (moved.2 _ owned : Keeps (.account tenantId) a b).1

theorem settings_commits (reachable : Reachable hashing allowed a) (pricing : Option BillingPricingVersion)
    (policies : String → Option TenantBillingPolicy) (held : List Lock) :
    (billing hashing allowed).Commits held a { a with pricing := pricing, policies := policies } :=
  fun _ _ _ => ⟨reachable.tail (.settings ..), .single (.settings ..), fun key _ => .sameTables key rfl rfl rfl rfl⟩

theorem account_commits (reachable : Reachable hashing allowed a) {tenantId : String} {held : List Lock}
    (absent : a.accounts tenantId = none) (owned : Lock.account tenantId ∈ held) :
    (billing hashing allowed).Commits held a (a.setAccount tenantId 0) := by
  intro others apart _
  refine ⟨reachable.tail (.account absent), .single (.account absent), fun key blocked => ?_⟩
  cases key with
  | account other =>
    have different : other ≠ tenantId := fun same => apart _ owned (same ▸ blocked)
    exact ⟨Function.update_of_ne different _ _, rfl, rfl⟩
  | run => rfl
  | ledgerRow | memberPeriod | policy => trivial
  | _ => exact fun _ member _ => member

abbrev Leaves (hashing : Hashing) (allowed : Request → Prop) (post : α → Database → Prop) (program : Session α)
    (db : Database) : Prop :=
  (billing hashing allowed).Safe (fun value transaction db => transaction = .closed ∧ post value db) program .closed db

theorem Leaves.bind {program : Session α} {next : α → Session β} {first : α → Database → Prop}
    {post : β → Open Database Lock → Database → Prop} (leaves : Leaves hashing allowed first program db)
    (reachable : Reachable hashing allowed db)
    (resume : ∀ value db, Reachable hashing allowed db → first value db →
      (billing hashing allowed).Safe post (next value) .closed db) :
    (billing hashing allowed).Safe post (program >>= next) .closed db := by
  refine Rules.Safe.bind leaves reachable ?_
  intro value transaction db reachable established
  rw [established.1]
  exact resume value db reachable established.2

theorem getActivePricingVersion_leaves :
    Leaves hashing allowed (fun _ _ => True) getActivePricingVersion db :=
  Rules.Safe.executeRead fun _ _ _ _ _ _ => fun _ _ _ => ⟨rfl, trivial⟩

theorem insertAccount_write (tenantId : String) (snapshot later : Database) :
    (insertAccount tenantId).write snapshot later = later ∧ (later.accounts tenantId).isSome ∨
      (insertAccount tenantId).write snapshot later = later.setAccount tenantId 0 ∧ later.accounts tenantId = none := by
  simp only [insertAccount]
  split
  next present => exact .inl ⟨rfl, present⟩
  next absent => exact .inr ⟨rfl, by simpa using absent⟩

theorem ensureAccount_leaves (tenantId : String) :
    Leaves hashing allowed (fun _ db => (db.accounts tenantId).isSome) (ensureAccount tenantId) db := by
  refine Rules.Safe.executed fun snapshot later _ _ reachable moved => ?_
  have grown := extends_of_commits moved.1
  cases insertAccount_write tenantId snapshot later with
  | inl kept =>
    rw [kept.1]
    exact ⟨.unchanged reachable, fun final _ growth => ⟨rfl, (extends_of_commits growth).accounts tenantId kept.2⟩⟩
  | inr added =>
    rw [added.1]
    have owned : Lock.account tenantId ∈ (insertAccount tenantId).locks snapshot := by
      -- an account that was there at the snapshot would still be there
      have absent : ¬ (snapshot.accounts tenantId).isSome := fun present => by
        simpa [added.2] using grown.accounts tenantId present
      simp [insertAccount, absent]
    refine ⟨account_commits reachable added.2 owned, fun final _ growth => ⟨rfl, ?_⟩⟩
    exact (extends_of_commits growth).accounts tenantId (by simp [Database.setAccount])

theorem insertPolicy_leaves (tenantId : String) (policy : TenantBillingPolicy) :
    Leaves hashing allowed (fun _ _ => True) (execute (insertPolicy tenantId policy)) db := by
  refine Rules.Safe.executed fun snapshot later _ _ reachable _ => ⟨?_, fun _ _ _ => ⟨rfl, trivial⟩⟩
  by_cases present : (later.policies tenantId).isSome
  · simpa only [insertPolicy, if_pos present] using Rules.Commits.unchanged reachable
  · simpa only [insertPolicy, if_neg present] using settings_commits reachable _ _ _

theorem ensureTenantPolicy_leaves (reachable : Reachable hashing allowed db) (tenantId : String) :
    Leaves hashing allowed (fun _ db => (db.accounts tenantId).isSome) (ensureTenantPolicy tenantId) db := by
  refine getActivePricingVersion_leaves.bind reachable fun pricing db reachable _ => ?_
  exact (insertPolicy_leaves _ _).bind reachable fun _ _ _ _ => ensureAccount_leaves tenantId

theorem getTenantPolicy_leaves (reachable : Reachable hashing allowed db) (tenantId : String) :
    Leaves hashing allowed (fun _ _ => True) (getTenantPolicy tenantId) db := by
  refine (ensureTenantPolicy_leaves reachable tenantId).bind reachable fun _ _ _ _ => ?_
  exact Rules.Safe.executed fun _ _ _ _ kept _ => ⟨.unchanged kept, fun _ _ _ => ⟨rfl, trivial⟩⟩

theorem abort_safe {post : Except BillingError α → Database → Prop} (error : BillingError)
    (fails : ∀ db, post (.error error) db) (transaction : Open Database Lock) (db : Database) :
    Safe hashing allowed post (abort error) transaction db :=
  fun _ _ _ => fun _ _ _ => fails _

theorem finish_safe {post : Except BillingError α → Database → Prop} {value : α} {held : List Lock} {patch : Database → Database}
    (untouched : ∀ db, patch db = db)
    (answers : ∀ later final, Reachable hashing allowed later → Moves hashing allowed held db later →
      Commits hashing allowed later final → post (.ok value) final) :
    Safe hashing allowed post (finish value) ⟨held, patch⟩ db := by
  refine Rules.Safe.commit fun later reachable moved => ?_
  simp only [untouched]
  exact ⟨.unchanged reachable, fun _ final last growth => answers later final reachable moved growth.1⟩

theorem insertLedger_write {snapshot x : Database} (unused : snapshot.conflicts entry = false) :
    (insertLedger entry).write snapshot x = x.appendLedger entry := by
  simp [insertLedger, unused]

theorem updateAccount_write {snapshot x : Database} {tenantId : String} {balance : Int}
    (present : (x.accounts tenantId).isSome) :
    (updateAccount tenantId balance).write snapshot x = x.setAccount tenantId balance := if_pos present

theorem query_safe {post : β → Open Database Lock → Database → Prop} {statement : Query α} {next : α → Session β}
    {held : List Lock} {patch : Database → Database}
    (resume : ∀ owned later, held ⊆ owned → Reachable hashing allowed later → Moves hashing allowed held db later →
      (billing hashing allowed).Safe post (next (statement.result (patch later)))
        ⟨owned, statement.write (patch later) ∘ patch⟩ later) :
    (billing hashing allowed).Safe post (query statement >>= next) ⟨held, patch⟩ db :=
  Rules.Safe.query fun later reachable moved =>
    resume _ later (List.subset_append_right _ _) reachable moved

theorem insertLedger_safe {post : α → Open Database Lock → Database → Prop} {next : Bool → Session α}
    {held : List Lock} {patch : Database → Database} (same : ∀ x, SamePosts entry.tenantId x (patch x))
    (refused : ∀ transaction db, (billing hashing allowed).Safe post (next false) transaction db)
    (posted : ∀ write owned later, held ⊆ owned → indexLocks entry ⊆ owned → Reachable hashing allowed later →
      Moves hashing allowed held db later → later.conflicts entry = false →
      (∀ x, (x.accounts entry.tenantId).isSome → write x = (patch x).post entry) →
      (billing hashing allowed).Safe post (next true) ⟨owned, write⟩ later) :
    (billing hashing allowed).Safe post (insertLedgerAndUpdateAccount entry >>= next) ⟨held, patch⟩ db := by
  intro snapshot reachable moved
  have result : (insertLedger entry).result (patch snapshot) = !snapshot.conflicts entry := by
    simp only [insertLedger, (same snapshot).conflicts]
  simp only [result]
  cases unused : snapshot.conflicts entry with
  | true => exact refused _ _
  | false =>
    intro later valid kept
    have locked : Moves hashing allowed (indexLocks entry ++ held) snapshot later := kept
    refine posted _ _ later (fun _ inside => ?_) (fun _ inside => ?_) valid
      (moved.trans (locked.mono (List.subset_append_right _ _)))
      (conflicts_kept locked (List.subset_append_left _ _) unused) ?_
    · exact List.mem_cons_of_mem _ (show _ ∈ indexLocks entry ++ held from List.mem_append_right _ inside)
    · exact List.mem_cons_of_mem _ (show _ ∈ indexLocks entry ++ held from List.mem_append_left _ inside)
    intro x present
    have accounts : (((patch x).appendLedger entry).accounts entry.tenantId).isSome := by
      rwa [show ((patch x).appendLedger entry).accounts = (patch x).accounts from rfl, (same x).accounts]
    have free : (patch snapshot).conflicts entry = false := (same snapshot).conflicts.trans unused
    change (updateAccount _ _).write _ ((insertLedger entry).write (patch snapshot) (patch x)) = _
    rw [insertLedger_write free, updateAccount_write accounts]
    rfl

/-- A commit that posts one entry, and possibly moves a member period with it. -/
theorem finish_posted {post : Except BillingError α → Database → Prop} {value : α} {held : List Lock}
    {write : Database → Database} (account : Lock.account entry.tenantId ∈ held) (indexes : indexLocks entry ⊆ held)
    (run : ∀ tenantId runId, Database.isUsageDebit entry tenantId runId = true → Lock.run tenantId runId ∈ held)
    (commit : ∀ later, Reachable hashing allowed later → Moves hashing allowed held db later →
      Commit hashing allowed later (write later) ∧ Posted later entry (write later))
    (answers : ∀ later final, Reachable hashing allowed later → Moves hashing allowed held db later →
      Commits hashing allowed (write later) final → post (.ok value) final) :
    Safe hashing allowed post (finish value) ⟨held, write⟩ db := by
  refine Rules.Safe.commit fun later reachable moved => ?_
  obtain ⟨committed, posted⟩ := commit later reachable moved
  exact ⟨commits_of_posted reachable committed posted account indexes run,
    fun _ final _ growth => answers later final reachable moved growth.1⟩

theorem adjustAccountLocked_safe {input : AdjustAccountInput} (permitted : allowed (.adjustAccount input))
    {pricing : BillingPricingVersion} {policy : TenantBillingPolicy} {before : Int}
    (balance : db.accounts input.tenantId = some before) :
    Safe hashing allowed (fun _ _ => True) (adjustAccountLocked input pricing policy before)
      ⟨[.account input.tenantId], id⟩ db := by
  refine Rules.Safe.answer fun generated => Rules.Safe.read fun first _ moved => ?_
  split
  next existing =>
    split
    · exact finish_safe (fun _ => rfl) fun _ _ _ _ _ => trivial
    · exact abort_safe _ (fun _ => trivial) _ _
  next =>
    refine Rules.Safe.answer fun outside => insertLedger_safe (fun x => .refl _ x)
      (fun _ _ => abort_safe _ (fun _ => trivial) _ _) ?_
    intro write owned second locked indexes _ later unused written
    have account := locked List.mem_cons_self
    refine finish_posted account indexes (fun _ _ counted => ?_) ?_ fun _ _ _ _ _ => trivial
    · cases input with | mk _ type => cases type <;> simp [Database.isUsageDebit, adjustmentEntry, AdjustmentType.ledgerType] at counted
    · intro third _ last
      have held : third.accounts input.tenantId = some before :=
        (account_kept (moved.trans (later.trans (last.mono locked))) List.mem_cons_self).trans balance
      have free := conflicts_kept last indexes unused
      have opened : (third.accounts input.tenantId).isSome := by rw [held]; rfl
      rw [written third opened]
      exact ⟨.adjusted permitted rfl held free, .post free held rfl⟩

theorem withAccountLock_safe {tenantId : String} {body : Int → Session (Except BillingError α)}
    {post : Except BillingError α → Database → Prop} (reachable : Reachable hashing allowed db)
    (fails : ∀ db, post (.error .missingRow) db)
    (locked : ∀ balance db, Reachable hashing allowed db → db.accounts tenantId = some balance →
      Safe hashing allowed post (body balance) ⟨[.account tenantId], id⟩ db) :
    Safe hashing allowed post (withAccountLock tenantId body) .closed db := by
  refine (ensureAccount_leaves tenantId).bind reachable fun _ db _ _ => Rules.Safe.lock fun later reachable _ => ?_
  split
  next balance found => exact locked balance later reachable found
  next => exact abort_safe _ fails _ _

theorem adjustAccount_safe {input : AdjustAccountInput} (permitted : allowed (.adjustAccount input))
    (reachable : Reachable hashing allowed db) :
    Safe hashing allowed (fun _ _ => True) (adjustAccount input) .closed db := by
  refine getActivePricingVersion_leaves.bind reachable fun pricing db reachable _ => ?_
  refine (getTenantPolicy_leaves reachable _).bind reachable fun policy db reachable _ => ?_
  split
  · refine withAccountLock_safe reachable (fun _ => trivial) fun _ _ _ balance => ?_
    exact adjustAccountLocked_safe permitted balance
  · exact fun _ _ _ => trivial

theorem originals_kept {held : List Lock} {row : BillingLedgerEntry} (moved : Moves hashing allowed held a b)
    (member : row ∈ a.ledger) : row ∈ b.ledger := (extends_of_commits moved.1).ledger.subset member

theorem ledgerTime_within {base : Database} {row : BillingLedgerEntry} (within : base.ledger <+: a.ledger)
    (found : ∀ id, row.reversesLedgerId = some id → ∃ original ∈ base.ledger, original.id = id) :
    a.ledgerTime row = base.ledgerTime row := by
  simp only [Database.ledgerTime]
  cases reverses : row.reversesLedgerId with
  | none => rfl
  | some id =>
    obtain ⟨original, inside, named⟩ := found id reverses
    obtain ⟨rest, extended⟩ := within
    cases first : base.ledger.find? (·.id == id) with
    | none => simpa [named] using List.find?_eq_none.mp first original inside
    | some original => simp only [← extended, Option.bind_some, List.find?_append, first, Option.some_or]

theorem memberUsage_rows (db : Database) (tenantId userId : String) (period : BeijingMonth) :
    db.memberUsage tenantId userId period =
      max 0 ((((rowsOf db tenantId).filter fun row =>
        row.userId == some userId && beijingMonth (db.ledgerTime row) == period).map fun entry =>
          if entry.type = .debit ∨ entry.type = .refund ∨ entry.type = .reversal then -entry.creditsDeltaMicro
          else 0).sum) := by
  simp only [Database.memberUsage, rowsOf, List.filter_filter]
  congr 4
  funext row
  cases row.tenantId == tenantId <;> simp

/-- The sum of a member's month reads only rows of the tenant and the debits they
reverse. -/
theorem memberUsage_congr {base : Database} {tenantId : String} (left : base.ledger <+: a.ledger)
    (right : base.ledger <+: b.ledger) (rows : rowsOf b tenantId = rowsOf a tenantId)
    (found : ∀ row ∈ rowsOf a tenantId, ∀ id, row.reversesLedgerId = some id →
      ∃ original ∈ base.ledger, original.id = id) (userId : String) (period : BeijingMonth) :
    b.memberUsage tenantId userId period = a.memberUsage tenantId userId period := by
  rw [memberUsage_rows, memberUsage_rows, rows]
  refine congrArg (fun chosen => max 0 (List.sum (List.map _ chosen))) (List.filter_congr fun row member => ?_)
  rw [ledgerTime_within left (found row member), ledgerTime_within right (found row member)]

theorem rowsOf_post {tenantId : String} (same : rowsOf b tenantId = rowsOf a tenantId) :
    rowsOf (b.post entry) tenantId = rowsOf (a.post entry) tenantId := by
  simp only [rowsOf, post_ledger, List.filter_append] at same ⊢
  rw [same]

theorem rows_kept {held : List Lock} {tenantId : String} (moved : Moves hashing allowed held a b)
    (owned : Lock.account tenantId ∈ held) : rowsOf b tenantId = rowsOf a tenantId :=
  (moved.2 _ owned : Keeps (.account tenantId) a b).2.1

/-- The sum a transaction computed under the account lock is the one at its commit. -/
theorem ensureMemberPeriod_write {held : List Lock} {tenantId userId : String} {period : BeijingMonth}
    (reachable : Reachable hashing allowed a) (moved : Moves hashing allowed held a b)
    (owned : Lock.account tenantId ∈ held) :
    (ensureMemberPeriodAccount tenantId userId period).write a b = b.openMemberPeriod tenantId userId period := by
  have found := originalsFound reachable
  have usage := memberUsage_congr (List.prefix_refl _) (extends_of_commits moved.1).ledger (rows_kept moved owned)
    (fun row member => found row (List.mem_filter.mp member).1) userId period
  simp only [ensureMemberPeriodAccount, Database.openMemberPeriod, usage]

theorem ensureMemberPeriod_write_post {held : List Lock} {userId : String} {period : BeijingMonth}
    (reachable : Reachable hashing allowed a) (moved : Moves hashing allowed held a b)
    (owned : Lock.account entry.tenantId ∈ held) (reverses : entry.reversesLedgerId = none) :
    (ensureMemberPeriodAccount entry.tenantId userId period).write (a.post entry) (b.post entry) =
      (b.post entry).openMemberPeriod entry.tenantId userId period := by
  have found : ∀ row ∈ rowsOf (a.post entry) entry.tenantId, ∀ id, row.reversesLedgerId = some id →
      ∃ original ∈ a.ledger, original.id = id := by
    intro row member id named
    cases List.mem_append.mp (List.mem_filter.mp member).1 with
    | inl old => exact originalsFound reachable row old id named
    | inr new => rw [List.mem_singleton.mp new, reverses] at named; cases named
  have usage := memberUsage_congr (List.prefix_append _ _)
    ((extends_of_commits moved.1).ledger.trans (List.prefix_append _ _)) (rowsOf_post (rows_kept moved owned))
    found userId period
  simp only [ensureMemberPeriodAccount, Database.openMemberPeriod, usage]

theorem ensureMemberPeriod_same (tenantId userId : String) (period : BeijingMonth) (snapshot x : Database) :
    SamePosts tenantId x ((ensureMemberPeriodAccount tenantId userId period).write snapshot x) := by
  simp only [ensureMemberPeriodAccount]
  split
  · exact .refl _ _
  · exact setMemberPeriod_same _ _ _ _ _

theorem insertReversal_safe {post : Except BillingError BillingLedgerEntry → Database → Prop}
    {original : BillingLedgerEntry} {held : List Lock} (owned : Lock.account entry.tenantId ∈ held)
    (fails : ∀ db, post (.error .uniqueViolation) db)
    (uncounted : ∀ tenantId runId, Database.isUsageDebit entry tenantId runId = false)
    (commit : ∀ later, Reachable hashing allowed later → Moves hashing allowed held db later →
      later.conflicts entry = false → (later.accounts entry.tenantId).isSome ∧
        Commit hashing allowed later (later.postReversal original entry) ∧
        Posted later entry (later.postReversal original entry))
    (answers : ∀ later final : Database, Posted later entry (later.postReversal original entry) →
      Commits hashing allowed (later.postReversal original entry) final → post (.ok (normalizeLedgerEntry entry)) final) :
    Safe hashing allowed post (insertReversal original entry) ⟨held, id⟩ db := by
  have never {held : List Lock} (tenantId runId) (counted : Database.isUsageDebit entry tenantId runId = true) :
      Lock.run tenantId runId ∈ held := by rw [uncounted] at counted; cases counted
  rw [insertReversal]
  cases named : original.userId with
  | some userId =>
    refine query_safe fun held₁ first wider₁ opened moved => ?_
    refine insertLedger_safe (ensureMemberPeriod_same _ _ _ _) (fun _ _ => abort_safe _ fails _ _) ?_
    intro write held₂ second wider₂ indexes _ later unused written
    refine query_safe fun held₃ third wider₃ _ last => ?_
    have ready (final : Database) (reachable : Reachable hashing allowed final)
        (moves : Moves hashing allowed held₃ third final) :
        Commit hashing allowed final (final.postReversal original entry) ∧
          Posted final entry (final.postReversal original entry) ∧
          ((updateMemberPeriod entry.tenantId userId (beijingMonth original.createdAt) fun used =>
            max 0 (used - entry.creditsDeltaMicro)).write (write third) ∘ write) final =
              final.postReversal original entry := by
      have since := last.trans (moves.mono wider₃)
      have whole := (later.mono wider₁).trans (since.mono (List.Subset.trans wider₁ wider₂))
      obtain ⟨present, committed, posted⟩ := commit final reachable (moved.trans whole) (conflicts_kept since indexes unused)
      refine ⟨committed, posted, ?_⟩
      rw [Function.comp_apply, written final present]
      change (Database.post ((ensureMemberPeriodAccount entry.tenantId userId (beijingMonth original.createdAt)).write
        first final) entry).moveMemberPeriod _ _ _ _ = _
      rw [ensureMemberPeriod_write opened whole owned, Database.postReversal, named]
    refine finish_posted (wider₃ (wider₂ (wider₁ owned))) (List.Subset.trans indexes wider₃) never
      (fun final reachable moves => ?_) (fun final _ reachable moves growth => ?_)
    · obtain ⟨committed, posted, same⟩ := ready final reachable moves
      exact same.symm ▸ ⟨committed, posted⟩
    · obtain ⟨_, posted, same⟩ := ready final reachable moves
      exact answers final _ posted (same ▸ growth)
  | none =>
    refine insertLedger_safe (fun x => .refl _ x) (fun _ _ => abort_safe _ fails _ _) ?_
    intro write held₁ first wider indexes _ moved unused written
    have ready (final : Database) (reachable : Reachable hashing allowed final)
        (moves : Moves hashing allowed held₁ first final) :
        Commit hashing allowed final (write final) ∧ Posted final entry (final.postReversal original entry) ∧
          write final = final.postReversal original entry := by
      obtain ⟨present, committed, posted⟩ := commit final reachable (moved.trans (moves.mono wider))
        (conflicts_kept moves indexes unused)
      have same : write final = final.postReversal original entry := by
        rw [written final present, Database.postReversal, named]
        rfl
      exact ⟨same ▸ committed, posted, same⟩
    refine finish_posted (wider owned) indexes never (fun final reachable moves => ?_)
      (fun final _ reachable moves growth => ?_)
    · obtain ⟨committed, posted, same⟩ := ready final reachable moves
      exact ⟨committed, same ▸ posted⟩
    · obtain ⟨_, posted, same⟩ := ready final reachable moves
      exact answers final _ posted (same ▸ growth)

theorem reversalEntry_uncounted (input : ReverseDebitInput) (original : BillingLedgerEntry) (before : Int)
    (outside : Outside) (tenantId runId : String) :
    Database.isUsageDebit (reversalEntry input original before outside) tenantId runId = false := by
  simp [Database.isUsageDebit, reversalEntry]

theorem reversed_answered {input : ReverseDebitInput} {row : BillingLedgerEntry} {final : Database}
    (member : row ∈ db.ledger) (reverses : row.reversesLedgerId = some input.ledgerId)
    (growth : Commits hashing allowed db final) :
    Answered hashing allowed (.reversed input (.ok (normalizeLedgerEntry row))) final :=
  ⟨row, (extends_of_commits growth).ledger.subset member, reverses, rfl⟩

theorem truthy_eq_some {text : Option String} {value : String} (found : truthy text = some value) :
    text = some value := (Option.filter_eq_some_iff.mp found).1

theorem reverseDebitLocked_safe {input : ReverseDebitInput} (permitted : allowed (.reverseDebit input)) {before : Int}
    (balance : db.accounts input.tenantId = some before) :
    Safe hashing allowed (fun result db => Answered hashing allowed (.reversed input result) db)
      (reverseDebitLocked input before) ⟨[.account input.tenantId], id⟩ db := by
  refine Rules.Safe.read fun first _ firstMoved => ?_
  split
  next idempotent found =>
    obtain ⟨row, kept, rfl⟩ := Option.map_eq_some_iff.mp found
    split
    next same =>
      refine finish_safe (fun _ => rfl) fun later final _ moved growth => ?_
      refine reversed_answered (originals_kept moved (List.mem_of_find?_eq_some kept)) (truthy_eq_some same) growth
    next => exact abort_safe _ (fun _ => trivial) _ _
  next =>
    refine query_safe fun held₁ second wider _ secondMoved => ?_
    split
    next => exact abort_safe _ (fun _ => trivial) _ _
    next original found =>
      obtain ⟨row, kept, rfl⟩ := Option.map_eq_some_iff.mp found
      refine Rules.Safe.read fun third _ thirdMoved => ?_
      split
      next prior found =>
        obtain ⟨previous, same, rfl⟩ := Option.map_eq_some_iff.mp found
        refine finish_safe (fun _ => rfl) fun later final _ moved growth => ?_
        refine reversed_answered (originals_kept moved (List.mem_of_find?_eq_some same)) ?_ growth
        have matched := List.find?_some same
        simp only [Bool.and_eq_true, beq_iff_eq] at matched
        exact matched.2
      next =>
        split
        next => exact abort_safe _ (fun _ => trivial) _ _
        next positive =>
          have matched := List.find?_some kept
          simp only [Bool.and_eq_true, beq_iff_eq] at matched
          have locked := wider List.mem_cons_self
          refine Rules.Safe.answer fun outside => insertReversal_safe locked (fun _ => trivial)
            (reversalEntry_uncounted _ _ _ _) ?_ ?_
          · intro later _ moved unused
            have since := thirdMoved.trans moved
            have held : later.accounts input.tenantId = some before :=
              (account_kept (firstMoved.trans (secondMoved.trans (since.mono wider))) List.mem_cons_self).trans balance
            have opened : (later.accounts input.tenantId).isSome := by rw [held]; rfl
            have found := originals_kept since (List.mem_of_find?_eq_some kept)
            exact ⟨opened, .reversed permitted held found matched.1 matched.2 (Int.not_le.mp positive) unused,
              postReversal_posted unused held rfl⟩
          · intro later final posted growth
            refine reversed_answered ?_ ?_ growth
            · rw [posted.ledger]
              exact List.mem_append_right _ (List.mem_singleton.mpr rfl)
            · exact congrArg some matched.1.2

theorem reverseDebit_safe {input : ReverseDebitInput} (permitted : allowed (.reverseDebit input))
    (reachable : Reachable hashing allowed db) :
    Safe hashing allowed (fun result db => Answered hashing allowed (.reversed input result) db)
      (reverseDebit input) .closed db :=
  withAccountLock_safe reachable (fun _ => trivial) fun _ _ _ balance => reverseDebitLocked_safe permitted balance

theorem insertUsage_write (event : BillingUsageEvent) (snapshot x : Database) :
    (insertUsage event).write snapshot x = x ∨
      (insertUsage event).write snapshot x = x.appendUsage event ∧
        (insertUsage event).locks snapshot = [.usageId event.id, .usageKey event.idempotencyKey] ∧
        ∀ other ∈ snapshot.usageEvents, other.idempotencyKey ≠ event.idempotencyKey ∧ other.id ≠ event.id := by
  by_cases taken : snapshot.usageEvents.any fun other =>
      other.idempotencyKey == event.idempotencyKey || other.id == event.id
  · exact .inl (if_pos taken)
  · have unused : ∀ other ∈ snapshot.usageEvents,
        other.idempotencyKey ≠ event.idempotencyKey ∧ other.id ≠ event.id := by
      simpa only [List.any_eq_true, Bool.or_eq_true, beq_iff_eq, not_exists, not_and, not_or] using taken
    have unkeyed : snapshot.usageEvents.any (·.idempotencyKey == event.idempotencyKey) = false := by
      simpa only [List.any_eq_false, beq_iff_eq] using fun other member => (unused other member).1
    refine .inr ⟨if_neg taken, ?_, unused⟩
    simp only [insertUsage, unkeyed, Bool.false_eq_true, if_false]

theorem insertUsage_commits {input : ProjectedRuntimeUsageInput} {policy : TenantBillingPolicy}
    {pricing : BillingPricingVersion} {outside : Outside} {held : List Lock}
    (permitted : allowed (.insertUsageEvent input)) (reachable : Reachable hashing allowed a)
    (unused : ∀ other ∈ a.usageEvents, other.idempotencyKey ≠ input.idempotencyKey ∧ other.id ≠ outside.uuid)
    (locked : Lock.usageId outside.uuid ∈ held ∧ Lock.usageKey input.idempotencyKey ∈ held) :
    (billing hashing allowed).Commits held a (a.appendUsage (usageEvent input policy pricing outside)) := by
  intro others apart _
  refine ⟨reachable.tail (.usage permitted unused), .single (.usage permitted unused), fun key blocked => ?_⟩
  cases key with
  | account => exact ⟨rfl, rfl, rfl⟩
  | run => rfl
  | ledgerRow | memberPeriod | policy => trivial
  | usageId id =>
    intro event member same
    refine (List.mem_append.mp member).resolve_right fun new => apart _ locked.1 ?_
    rw [← show (usageEvent input policy pricing outside).id = outside.uuid from rfl, ← List.mem_singleton.mp new, same]
    exact blocked
  | usageKey id =>
    intro event member same
    refine (List.mem_append.mp member).resolve_right fun new => apart _ locked.2 ?_
    rw [← show (usageEvent input policy pricing outside).idempotencyKey = input.idempotencyKey from rfl,
      ← List.mem_singleton.mp new, same]
    exact blocked
  | _ => exact fun _ member _ => member

theorem insertUsageEvent_safe {input : ProjectedRuntimeUsageInput} (permitted : allowed (.insertUsageEvent input))
    (reachable : Reachable hashing allowed db) :
    Safe hashing allowed (fun _ _ => True) (insertUsageEvent input) .closed db := by
  refine (getTenantPolicy_leaves reachable _).bind reachable fun policy db reachable _ => ?_
  split
  · exact fun _ _ _ => trivial
  next policy =>
    refine getActivePricingVersion_leaves.bind reachable fun pricing db reachable _ => ?_
    refine Rules.Safe.answer fun outside => Rules.Safe.execute fun snapshot later _ _ reachable moved => ⟨?_, fun _ => ?_⟩
    · cases insertUsage_write (usageEvent input policy pricing outside) snapshot later with
      | inl kept =>
        rw [kept]
        exact .unchanged reachable
      | inr added =>
        obtain ⟨written, locks, unused⟩ := added
        rw [locks] at moved ⊢
        rw [written]
        refine insertUsage_commits permitted reachable (fun other member => ⟨fun same => ?_, fun same => ?_⟩)
          ⟨List.mem_cons_self, List.mem_cons_of_mem _ List.mem_cons_self⟩
        · have kept : Keeps (.usageKey input.idempotencyKey) snapshot later :=
            moved.2 _ (List.mem_cons_of_mem _ List.mem_cons_self)
          exact (unused other (kept other member same)).1 same
        · have kept : Keeps (.usageId outside.uuid) snapshot later := moved.2 _ List.mem_cons_self
          exact (unused other (kept other member same)).2 same
    · split <;> exact fun _ _ _ => trivial

theorem chargeMember_safe {post : α → Open Database Lock → Database → Prop} {next : Unit → Session α}
    {held : List Lock} {write : Database → Database} {credits time : Int}
    (owned : Lock.account entry.tenantId ∈ held) (reverses : entry.reversesLedgerId = none)
    (opened : (db.accounts entry.tenantId).isSome)
    (written : ∀ x, (x.accounts entry.tenantId).isSome → write x = x.post entry)
    (resume : ∀ wider patch later, held ⊆ wider → Moves hashing allowed held db later →
      (∀ final, Moves hashing allowed wider later final →
        patch final = (final.post entry).chargeMember entry credits time) →
      (billing hashing allowed).Safe post (next ()) ⟨wider, patch⟩ later) :
    (billing hashing allowed).Safe post (chargeMember entry credits time >>= next) ⟨held, write⟩ db := by
  have present {x : Database} (moved : Moves hashing allowed held db x) : (x.accounts entry.tenantId).isSome :=
    (extends_of_commits moved.1).accounts _ opened
  rw [chargeMember]
  cases named : entry.userId with
  | none =>
    refine resume held write db (List.Subset.refl _) (.refl _ _) fun final moved => ?_
    rw [written final (present moved), Database.chargeMember, named]
  | some userId =>
    by_cases positive : credits > 0
    · simp only [if_pos positive]
      change (billing hashing allowed).Safe post
        (query (ensureMemberPeriodAccount entry.tenantId userId (beijingMonth time)) >>= fun _ =>
          query (updateMemberPeriod entry.tenantId userId (beijingMonth time) (· + credits)) >>= next) _ _
      refine query_safe fun held₁ first wider₁ valid moved => query_safe fun held₂ second wider₂ _ later => ?_
      refine resume held₂ _ second (List.Subset.trans wider₁ wider₂) (moved.trans (later.mono wider₁)) fun final last => ?_
      have since : Moves hashing allowed held first final :=
        (later.mono wider₁).trans (last.mono (List.Subset.trans wider₁ wider₂))
      change Database.moveMemberPeriod ((ensureMemberPeriodAccount entry.tenantId userId (beijingMonth time)).write
        (write first) (write final)) _ _ _ _ = _
      rw [written first (present moved), written final (present (moved.trans since)),
        ensureMemberPeriod_write_post valid since owned reverses, Database.chargeMember, named]
      exact (if_pos positive).symm
    · simp only [if_neg positive]
      refine resume held write db (List.Subset.refl _) (.refl _ _) fun final moved => ?_
      rw [written final (present moved), Database.chargeMember, named]
      exact (if_neg positive).symm

theorem debited_kept {held : List Lock} {tenantId runId : String} (moved : Moves hashing allowed held a b)
    (owned : Lock.run tenantId runId ∈ held) :
    b.debitedUsageEventIds tenantId runId = a.debitedUsageEventIds tenantId runId :=
  (moved.2 _ owned : Keeps (.run tenantId runId) a b)

theorem debited_posted {tenantId runId : String} (ledger : b.ledger = a.ledger ++ [entry])
    (counted : Database.isUsageDebit entry tenantId runId = true) :
    b.debitedUsageEventIds tenantId runId = a.debitedUsageEventIds tenantId runId ++ entry.relatedUsageEventIds := by
  simp [Database.debitedUsageEventIds, ledger, counted]

/-- What `settleRunDebit` promises once it has committed. -/
def SettledAnswer (hashing : Hashing) (allowed : Request → Prop) (tenantId runId : String)
    (result : Except BillingError Settlement) (db : Database) : Prop :=
  ∀ settlement, result = .ok settlement → ∃ committed, Reachable hashing allowed committed ∧
    Commits hashing allowed committed db ∧ Settled hashing tenantId runId settlement committed

theorem settleRunDebitLocked_safe {tenantId runId : String} (permitted : allowed (.settleRunDebit tenantId runId))
    {policy : TenantBillingPolicy} (charges : policy.charges = true) {pricing : BillingPricingVersion} {before : Int}
    (balance : db.accounts tenantId = some before) :
    Safe hashing allowed (SettledAnswer hashing allowed tenantId runId)
      (settleRunDebitLocked hashing tenantId runId policy pricing before)
      ⟨[.account tenantId, .run tenantId runId], id⟩ db := by
  have account : Lock.account tenantId ∈ [Lock.account tenantId, .run tenantId runId] := List.mem_cons_self
  have run : Lock.run tenantId runId ∈ [Lock.account tenantId, .run tenantId runId] :=
    List.mem_cons_of_mem _ List.mem_cons_self
  refine Rules.Safe.read fun first _ firstMoved => Rules.Safe.read fun second _ secondMoved => ?_
  have seen {later : Database} (moved : Commits hashing allowed second later) :
      second.usageEvents <+: later.usageEvents := (extends_of_commits moved).usageEvents
  split
  next none =>
    refine finish_safe (fun _ => rfl) fun later final reachable moved growth => ?_
    rintro settlement ⟨⟩
    refine ⟨later, reachable, growth, ⟨_, seen moved.1, rfl⟩, .inl ?_⟩
    rw [debited_kept (secondMoved.trans moved) run]
    exact none
  next oldest rest pending =>
    refine Rules.Safe.read fun third _ thirdMoved => ?_
    split
    next existing found =>
      obtain ⟨row, kept, rfl⟩ := Option.map_eq_some_iff.mp found
      refine finish_safe (fun _ => rfl) fun later final reachable moved growth => ?_
      rintro settlement ⟨⟩
      have since := thirdMoved.trans moved
      refine ⟨later, reachable, growth, ⟨_, seen since.1, rfl⟩, .inr ⟨row, ?_, ?_⟩⟩
      · exact originals_kept moved (List.mem_of_find?_eq_some kept)
      · rw [debited_kept (secondMoved.trans since) run]
        have keyed := List.find?_some kept
        rw [beq_iff_eq] at keyed
        exact keyed.trans (congrArg (fun rows => usageDebitKey hashing runId (List.map _ rows)) pending.symm)
    next =>
      refine Rules.Safe.answer fun outside => insertLedger_safe (fun x => .refl _ x)
        (fun _ _ => abort_safe _ (fun _ _ same => by cases same) _ _) ?_
      intro write held₁ fourth wider₁ indexes _ fourthMoved unused written
      have sinceSeen := thirdMoved.trans fourthMoved
      have balanced {later : Database} (moved : Moves hashing allowed [.account tenantId, .run tenantId runId] fourth later) :
          later.accounts tenantId = some before :=
        (account_kept (firstMoved.trans (secondMoved.trans (sinceSeen.trans moved))) account).trans balance
      refine chargeMember_safe (wider₁ account) rfl ?_ written ?_
      · change (fourth.accounts tenantId).isSome
        rw [balanced (.refl _ _)]
        rfl
      intro held₂ patch fifth wider₂ fifthMoved charged
      have ready (final : Database) (moves : Moves hashing allowed held₂ fifth final) :
          Commit hashing allowed final (patch final) ∧
            Posted final (usageDebitEntry hashing tenantId runId policy pricing (oldest :: rest) before outside)
              (patch final) := by
        have since := fifthMoved.trans (moves.mono wider₂)
        have held := balanced (since.mono wider₁)
        have free := conflicts_kept since indexes unused
        have same : final.pendingUsage second.usageEvents tenantId runId = oldest :: rest := by
          rw [Database.pendingUsage, debited_kept (secondMoved.trans (sinceSeen.trans (since.mono wider₁))) run]
          exact pending
        rw [charged final moves]
        exact ⟨.settled permitted charges held (seen (sinceSeen.trans (since.mono wider₁)).1) same free,
          Posted.after (.post free held Int.sub_eq_add_neg) (chargeMember_same _ _ _ _)⟩
      refine finish_posted (wider₂ (wider₁ account)) (List.Subset.trans indexes wider₂) ?_ (fun final _ moves => ready final moves) ?_
      · intro otherTenant otherRun counted
        simp only [Database.isUsageDebit, usageDebitEntry, Bool.and_eq_true, beq_iff_eq, Option.some.injEq] at counted
        rw [← counted.1.1.1, ← counted.1.1.2]
        exact wider₂ (wider₁ run)
      · intro later final reachable moves growth
        rintro settlement ⟨⟩
        obtain ⟨commit, posted⟩ := ready later moves
        have since := (fifthMoved.trans (moves.mono wider₂)).mono wider₁
        have whole := sinceSeen.trans since
        refine ⟨patch later, reachable.tail commit, growth, ⟨second.usageEvents, ?_, rfl⟩, .inl ?_⟩
        · rw [posted.usageEvents]
          exact seen whole.1
        · rw [debited_posted posted.ledger (by simp [Database.isUsageDebit, usageDebitEntry]),
            debited_kept (secondMoved.trans whole) run, List.filter_eq_nil_iff]
          intro event member
          simp only [Bool.not_eq_true', List.contains_eq_mem, decide_eq_false_iff_not, not_not, List.mem_append]
          by_cases old : event.id ∈ first.debitedUsageEventIds tenantId runId
          · exact .inl old
          · refine .inr (List.mem_map_of_mem (pending ▸ List.mem_filter.mpr ⟨member, ?_⟩))
            simpa using old

theorem settleRunDebit_safe {tenantId runId : String} (permitted : allowed (.settleRunDebit tenantId runId))
    (reachable : Reachable hashing allowed db) :
    Safe hashing allowed (fun result db => Answered hashing allowed (.settled tenantId runId result) db)
      (settleRunDebit hashing tenantId runId) .closed db := by
  refine (getTenantPolicy_leaves reachable _).bind reachable fun policy db reachable _ => ?_
  split
  · exact fun _ _ _ => trivial
  next policy =>
    split
    next charges =>
      refine getActivePricingVersion_leaves.bind reachable fun pricing db reachable _ => ?_
      refine (ensureAccount_leaves tenantId).bind reachable fun _ db _ _ => ?_
      refine Rules.Safe.lock fun _ _ _ => Rules.Safe.lock fun later reachable _ => ?_
      split
      next => exact abort_safe _ (fun _ => trivial) _ _
      next before balance =>
        refine Rules.Safe.bind (settleRunDebitLocked_safe permitted charges balance) reachable ?_
        intro result _ _ _ answered later _ moved
        cases result with
        | error => trivial
        | ok settlement =>
          obtain ⟨committed, valid, growth, settled⟩ := answered settlement rfl
          exact ⟨committed, valid, growth.trans moved.1, settled⟩
    next => exact fun _ _ _ => trivial

theorem chargeFixedDebitLocked_safe {input : FixedDebitInput} (permitted : allowed (.chargeFixedDebit input))
    {policy : TenantBillingPolicy} (charges : policy.charges = true) (positive : 0 < fixedCredits input)
    (unattached : truthy input.runId = none) {pricing : BillingPricingVersion} {before : Int}
    (balance : db.accounts input.tenantId = some before) :
    Safe hashing allowed (fun _ _ => True) (chargeFixedDebitLocked input policy pricing before)
      ⟨[.account input.tenantId], id⟩ db := by
  refine Rules.Safe.read fun first _ moved => ?_
  split
  next => exact finish_safe (fun _ => rfl) fun _ _ _ _ _ => trivial
  next =>
    refine Rules.Safe.answer fun outside => insertLedger_safe (fun x => .refl _ x)
      (fun _ _ => abort_safe _ (fun _ => trivial) _ _) ?_
    intro write owned second wider indexes _ later unused written
    refine finish_posted (wider List.mem_cons_self) indexes (fun _ _ counted => ?_) ?_ fun _ _ _ _ _ => trivial
    · simp [Database.isUsageDebit, fixedDebitEntry, unattached] at counted
    · intro third _ last
      have held : third.accounts input.tenantId = some before :=
        (account_kept (moved.trans (later.trans (last.mono wider))) List.mem_cons_self).trans balance
      have free := conflicts_kept last indexes unused
      have opened : (third.accounts input.tenantId).isSome := by rw [held]; rfl
      rw [written third opened]
      exact ⟨.charged permitted charges positive unattached held free, .post free held Int.sub_eq_add_neg⟩

theorem chargeRunFixedDebit_safe {input : FixedDebitInput} {runId : String}
    (permitted : allowed (.chargeFixedDebit input)) {policy : TenantBillingPolicy} (charges : policy.charges = true)
    (positive : 0 < fixedCredits input) (attached : truthy input.runId = some runId)
    {pricing : BillingPricingVersion} (reachable : Reachable hashing allowed db) :
    Safe hashing allowed (fun _ _ => True) (chargeRunFixedDebit input runId policy pricing) .closed db := by
  refine (ensureAccount_leaves _).bind reachable fun _ db _ _ => ?_
  refine Rules.Safe.lock fun _ _ _ => Rules.Safe.lock fun start _ _ => ?_
  split
  next => exact abort_safe _ (fun _ => trivial) _ _
  next before balance =>
    refine Rules.Safe.read fun first _ firstMoved => ?_
    split
    next => exact finish_safe (fun _ => rfl) fun _ _ _ _ _ => trivial
    next =>
      refine Rules.Safe.answer fun outside => insertLedger_safe (fun x => .refl _ x)
        (fun _ _ => abort_safe _ (fun _ => trivial) _ _) ?_
      intro write held₁ second wider₁ indexes _ secondMoved unused written
      have account := wider₁ List.mem_cons_self
      have run := wider₁ (List.mem_cons_of_mem _ List.mem_cons_self)
      have balanced {later : Database} (moved : Moves hashing allowed held₁ second later) :
          later.accounts input.tenantId = some before :=
        (account_kept (firstMoved.trans (secondMoved.trans (moved.mono wider₁))) List.mem_cons_self).trans balance
      refine Rules.Safe.answer fun charged => chargeMember_safe account rfl ?_ written ?_
      · change (second.accounts input.tenantId).isSome
        rw [balanced (.refl _ _)]
        rfl
      intro held₂ patch third wider₂ thirdMoved charges_member
      refine finish_posted (wider₂ account) (List.Subset.trans indexes wider₂) (fun _ _ counted => ?_) ?_
        fun _ _ _ _ _ => trivial
      · simp only [Database.isUsageDebit, fixedDebitEntry, attached, Bool.and_eq_true, beq_iff_eq,
          Option.some.injEq] at counted
        rw [← counted.1.1.1, ← counted.1.1.2]
        exact wider₂ run
      · intro final _ moves
        have since := thirdMoved.trans (moves.mono wider₂)
        have held := balanced since
        have free := conflicts_kept since indexes unused
        rw [charges_member final moves]
        exact ⟨.runCharged permitted charges positive attached held free,
          Posted.after (.post free held Int.sub_eq_add_neg) (chargeMember_same _ _ _ _)⟩

theorem chargeFixedDebit_safe {input : FixedDebitInput} (permitted : allowed (.chargeFixedDebit input))
    (reachable : Reachable hashing allowed db) :
    Safe hashing allowed (fun _ _ => True) (chargeFixedDebit input) .closed db := by
  refine (getTenantPolicy_leaves reachable _).bind reachable fun policy db reachable _ => ?_
  split
  · exact fun _ _ _ => trivial
  next policy =>
    split
    next enabled =>
      simp only [Bool.and_eq_true, decide_eq_true_eq] at enabled
      refine getActivePricingVersion_leaves.bind reachable fun pricing db reachable _ => ?_
      split
      next runId attached =>
        exact Rules.Safe.bind (chargeRunFixedDebit_safe permitted enabled.1 enabled.2 attached reachable) reachable
          fun _ _ _ _ _ => fun _ _ _ => trivial
      next unattached =>
        refine Rules.Safe.bind (withAccountLock_safe reachable (fun _ => trivial) fun _ _ _ balance =>
          chargeFixedDebitLocked_safe permitted enabled.1 enabled.2 unattached balance) reachable
          fun _ _ _ _ _ => fun _ _ _ => trivial
    next => exact fun _ _ _ => trivial

theorem answered_lasts {reply : Reply} (growth : Commits hashing allowed a b)
    (answered : Answered hashing allowed reply a) : Answered hashing allowed reply b := by
  cases reply with
  | settled tenantId runId result =>
    cases result with
    | error => trivial
    | ok settlement =>
      cases settlement with
      | none => trivial
      | some settlement =>
        obtain ⟨committed, reachable, earlier, settled⟩ := answered
        exact ⟨committed, reachable, earlier.trans growth, settled⟩
  | reversed input result =>
    cases result with
    | error => trivial
    | ok entry =>
      obtain ⟨row, member, reverses, same⟩ := answered
      exact ⟨row, (extends_of_commits growth).ledger.subset member, reverses, same⟩
  | _ => trivial

theorem answers {α : Type} {program : Session α} {reply : α → Reply}
    {post : α → Database → Prop} (safe : Safe hashing allowed post program .closed db)
    (reachable : Reachable hashing allowed db)
    (answered : ∀ value db, post value db → Answered hashing allowed (reply value) db) :
    Safe hashing allowed (Answered hashing allowed) (program >>= fun value => .returned (reply value)) .closed db :=
  Rules.Safe.bind safe reachable fun value _ _ _ posted => fun _ _ moved =>
    answered_lasts moved.1 (answered value _ posted)

theorem changeSettings_safe (pricing : Option BillingPricingVersion → Option BillingPricingVersion)
    (policies : (String → Option TenantBillingPolicy) → String → Option TenantBillingPolicy) :
    Safe hashing allowed (Answered hashing allowed) (Request.run hashing (.changeSettings pricing policies)) .closed db :=
  Rules.Safe.execute fun _ _ _ _ reachable _ =>
    ⟨settings_commits reachable _ _ _, fun _ => fun _ _ _ => trivial⟩

theorem request_safe {request : Request} (permitted : allowed request) (reachable : Reachable hashing allowed db) :
    Safe hashing allowed (Answered hashing allowed) (request.run hashing) .closed db := by
  cases request with
  | adjustAccount input => exact answers (adjustAccount_safe permitted reachable) reachable fun _ _ _ => trivial
  | insertUsageEvent input => exact answers (insertUsageEvent_safe permitted reachable) reachable fun _ _ _ => trivial
  | chargeFixedDebit input => exact answers (chargeFixedDebit_safe permitted reachable) reachable fun _ _ _ => trivial
  | reverseDebit input => exact answers (reverseDebit_safe permitted reachable) reachable fun _ _ answered => answered
  | settleRunDebit tenantId runId =>
    exact answers (settleRunDebit_safe permitted reachable) reachable fun _ _ answered => answered
  | changeSettings pricing policies => exact changeSettings_safe pricing policies

theorem covers : (billing hashing allowed).Covers (store hashing allowed) (fun _ => Answered hashing allowed) where
  permits _ := trivial
  admits := by
    rintro _ program db ⟨request, permitted, rfl⟩ reachable
    exact request_safe permitted reachable
  lasting _ growth answered := answered_lasts growth answered

/-- Every interleaving of the calls, with crashes anywhere, reaches only what
whole commits reach, and every answer given is true of it. -/
theorem refines {world : World Database Lock Outside Reply}
    (run : Run (store hashing allowed) ⟨.empty, []⟩ world) :
    Reachable hashing allowed world.db ∧
      ∀ (index : Nat) reply, world.calls[index]? = some (Call.finished reply) → Answered hashing allowed reply world.db := by
  have holds := (Rules.Holds.start (.refl : Reachable hashing allowed .empty)).run covers run
  exact ⟨holds.1.invariant, fun _ _ found => holds.1.fits found⟩

end AgentSaas.Proofs.BillingRefinement
