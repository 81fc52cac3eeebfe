import AgentSaas.Billing.Commits

/-! What a commit of the billing tables can do, said once: rows are only added,
and one posted row moves one balance. -/

namespace AgentSaas.Proofs.BillingCommits
open AgentSaas.Billing

variable {hashing : Hashing} {allowed : Request → Prop} {a b c db : Database} {entry : BillingLedgerEntry}

def rowsOf (db : Database) (tenantId : String) : List BillingLedgerEntry :=
  db.ledger.filter (·.tenantId == tenantId)

@[simp] theorem setAccount_ledger (tenantId : String) (balance : Int) :
    (db.setAccount tenantId balance).ledger = db.ledger := rfl

@[simp] theorem setAccount_usageEvents (tenantId : String) (balance : Int) :
    (db.setAccount tenantId balance).usageEvents = db.usageEvents := rfl

@[simp] theorem setAccount_memberPeriods (tenantId : String) (balance : Int) :
    (db.setAccount tenantId balance).memberPeriods = db.memberPeriods := rfl

@[simp] theorem post_ledger : (db.post entry).ledger = db.ledger ++ [entry] := rfl

@[simp] theorem post_usageEvents : (db.post entry).usageEvents = db.usageEvents := rfl

@[simp] theorem post_memberPeriods : (db.post entry).memberPeriods = db.memberPeriods := rfl

@[simp] theorem post_accounts :
    (db.post entry).accounts = Function.update db.accounts entry.tenantId (some entry.balanceAfterMicro) := rfl

structure SamePosts (tenantId : String) (a b : Database) : Prop where
  ledger : b.ledger = a.ledger
  accounts : b.accounts = a.accounts
  usageEvents : b.usageEvents = a.usageEvents
  periods : ∀ other, other ≠ tenantId → b.memberPeriods other = a.memberPeriods other

theorem SamePosts.refl (tenantId : String) (db : Database) : SamePosts tenantId db db :=
  ⟨rfl, rfl, rfl, fun _ _ => rfl⟩

theorem SamePosts.trans {tenantId : String} (first : SamePosts tenantId a b) (last : SamePosts tenantId b c) :
    SamePosts tenantId a c :=
  ⟨last.ledger.trans first.ledger, last.accounts.trans first.accounts, last.usageEvents.trans first.usageEvents,
    fun other apart => (last.periods other apart).trans (first.periods other apart)⟩

theorem setMemberPeriod_same (db : Database) (tenantId userId : String) (period : BeijingMonth) (used : Int) :
    SamePosts tenantId db (db.setMemberPeriod tenantId userId period used) :=
  ⟨rfl, rfl, rfl, fun _ apart => Function.update_of_ne apart _ _⟩

theorem openMemberPeriod_same (db : Database) (tenantId userId : String) (period : BeijingMonth) :
    SamePosts tenantId db (db.openMemberPeriod tenantId userId period) := by
  rw [Database.openMemberPeriod]
  split
  · exact .refl _ _
  · exact setMemberPeriod_same _ _ _ _ _

theorem moveMemberPeriod_same (db : Database) (tenantId userId : String) (period : BeijingMonth)
    (change : Int → Int) : SamePosts tenantId db (db.moveMemberPeriod tenantId userId period change) := by
  rw [Database.moveMemberPeriod]
  split
  · exact setMemberPeriod_same _ _ _ _ _
  · exact .refl _ _

theorem chargeMember_same (db : Database) (entry : BillingLedgerEntry) (credits time : Int) :
    SamePosts entry.tenantId db (db.chargeMember entry credits time) := by
  rw [Database.chargeMember]
  split
  · split
    · exact (openMemberPeriod_same _ _ _ _).trans (moveMemberPeriod_same _ _ _ _ _)
    · exact .refl _ _
  · exact .refl _ _

structure Posted (a : Database) (entry : BillingLedgerEntry) (b : Database) : Prop where
  ledger : b.ledger = a.ledger ++ [entry]
  accounts : b.accounts = Function.update a.accounts entry.tenantId (some entry.balanceAfterMicro)
  usageEvents : b.usageEvents = a.usageEvents
  periods : ∀ other, other ≠ entry.tenantId → b.memberPeriods other = a.memberPeriods other
  unused : a.conflicts entry = false
  balance : a.accounts entry.tenantId = some entry.balanceBeforeMicro
  moved : entry.balanceAfterMicro = entry.balanceBeforeMicro + entry.creditsDeltaMicro

theorem Posted.post (unused : a.conflicts entry = false)
    (balance : a.accounts entry.tenantId = some entry.balanceBeforeMicro)
    (moved : entry.balanceAfterMicro = entry.balanceBeforeMicro + entry.creditsDeltaMicro) :
    Posted a entry (a.post entry) :=
  ⟨rfl, rfl, rfl, fun _ _ => rfl, unused, balance, moved⟩

theorem Posted.after (posted : Posted a entry b) (same : SamePosts entry.tenantId b c) : Posted a entry c :=
  ⟨same.ledger.trans posted.ledger, same.accounts.trans posted.accounts, same.usageEvents.trans posted.usageEvents,
    fun other apart => (same.periods other apart).trans (posted.periods other apart), posted.unused, posted.balance,
    posted.moved⟩

theorem conflicts_eq_false : a.conflicts entry = false ↔ ∀ other ∈ a.ledger,
    other.id ≠ entry.id ∧ other.idempotencyKey ≠ entry.idempotencyKey ∧
      ∀ id, entry.reversesLedgerId = some id → other.reversesLedgerId ≠ some id := by
  simp only [Database.conflicts, List.any_eq_false, Bool.or_eq_true, beq_iff_eq, Bool.and_eq_true, not_or]
  refine forall₂_congr fun other _ => ?_
  cases reversed : entry.reversesLedgerId with
  | none => simp
  | some id => simp [and_assoc]

theorem SamePosts.conflicts {tenantId : String} (same : SamePosts tenantId a b) :
    b.conflicts entry = a.conflicts entry := by
  rw [Database.conflicts, Database.conflicts, same.ledger]

theorem postReversal_posted {original : BillingLedgerEntry} (unused : a.conflicts entry = false)
    (balance : a.accounts entry.tenantId = some entry.balanceBeforeMicro)
    (moved : entry.balanceAfterMicro = entry.balanceBeforeMicro + entry.creditsDeltaMicro) :
    Posted a entry (a.postReversal original entry) := by
  rw [Database.postReversal]
  split
  next userId named =>
    have opened := openMemberPeriod_same a entry.tenantId userId (beijingMonth original.createdAt)
    refine Posted.after ⟨?_, ?_, ?_, ?_, unused, balance, moved⟩ (moveMemberPeriod_same _ _ _ _ _)
    · rw [post_ledger, opened.ledger]
    · rw [post_accounts, opened.accounts]
    · exact opened.usageEvents
    · exact opened.periods
  next => exact .post unused balance moved

inductive Effect (a b : Database) : Prop where
  | settings (ledger : b.ledger = a.ledger) (accounts : b.accounts = a.accounts)
      (usageEvents : b.usageEvents = a.usageEvents) (periods : b.memberPeriods = a.memberPeriods)
  | account (tenantId : String) (absent : a.accounts tenantId = none) (opened : b = a.setAccount tenantId 0)
  | usage (event : BillingUsageEvent) (recorded : b = a.appendUsage event)
      (unused : ∀ other ∈ a.usageEvents, other.idempotencyKey ≠ event.idempotencyKey ∧ other.id ≠ event.id)
  | posted (entry : BillingLedgerEntry) (posted : Posted a entry b)

theorem effect_of_commit (commit : Commit hashing allowed a b) : Effect a b := by
  cases commit with
  | settings => exact .settings rfl rfl rfl rfl
  | account absent => exact .account _ absent rfl
  | usage permitted unused => exact .usage _ rfl unused
  | adjusted permitted keyed balance unused => exact .posted _ (.post unused balance rfl)
  | reversed permitted balance found same debit positive unused =>
    exact .posted _ (postReversal_posted unused balance rfl)
  | settled permitted charges balance seen pending unused =>
    exact .posted _ (Posted.after (.post unused balance (Int.sub_eq_add_neg)) (chargeMember_same _ _ _ _))
  | charged permitted charges positive account balance unused =>
    exact .posted _ (.post unused balance Int.sub_eq_add_neg)
  | runCharged permitted charges positive run balance unused =>
    exact .posted _ (Posted.after (.post unused balance Int.sub_eq_add_neg) (chargeMember_same _ _ _ _))

structure Extends (a b : Database) : Prop where
  ledger : a.ledger <+: b.ledger
  usageEvents : a.usageEvents <+: b.usageEvents
  accounts : ∀ tenantId, (a.accounts tenantId).isSome → (b.accounts tenantId).isSome

theorem Extends.refl (db : Database) : Extends db db := ⟨List.prefix_refl _, List.prefix_refl _, fun _ present => present⟩

theorem Extends.trans (first : Extends a b) (last : Extends b c) : Extends a c :=
  ⟨first.ledger.trans last.ledger, first.usageEvents.trans last.usageEvents,
    fun tenantId present => last.accounts tenantId (first.accounts tenantId present)⟩

theorem update_isSome {accounts : String → Option Int} {tenantId other : String} {balance : Int}
    (present : (accounts other).isSome) : (Function.update accounts tenantId (some balance) other).isSome := by
  rw [Function.update_apply]
  split
  · rfl
  · exact present

theorem Effect.extends (effect : Effect a b) : Extends a b := by
  cases effect with
  | settings ledger accounts usageEvents => exact ⟨ledger ▸ List.prefix_refl _, usageEvents ▸ List.prefix_refl _, fun _ present => accounts ▸ present⟩
  | account tenantId absent opened =>
    subst opened
    exact ⟨List.prefix_refl _, List.prefix_refl _, fun _ present => update_isSome present⟩
  | usage event recorded =>
    subst recorded
    exact ⟨List.prefix_refl _, List.prefix_append _ _, fun _ present => present⟩
  | posted entry posted =>
    refine ⟨posted.ledger ▸ List.prefix_append _ _, posted.usageEvents ▸ List.prefix_refl _, fun tenantId present => ?_⟩
    rw [posted.accounts]
    exact update_isSome present

theorem extends_of_commits (commits : Commits hashing allowed a b) : Extends a b := by
  induction commits with
  | refl => exact .refl _
  | tail _ commit ih => exact ih.trans (effect_of_commit commit).extends

def OriginalsFound (db : Database) : Prop :=
  ∀ entry ∈ db.ledger, ∀ id, entry.reversesLedgerId = some id → ∃ original ∈ db.ledger, original.id = id

theorem OriginalsFound.append (found : OriginalsFound a) (ledger : b.ledger = a.ledger ++ [entry])
    (reversed : ∀ id, entry.reversesLedgerId = some id → ∃ original ∈ a.ledger, original.id = id) :
    OriginalsFound b := by
  intro row member id reverses
  rw [ledger] at member ⊢
  have earlier : ∃ original ∈ a.ledger, original.id = id := by
    cases List.mem_append.mp member with
    | inl old => exact found row old id reverses
    | inr new => exact reversed id (List.mem_singleton.mp new ▸ reverses)
  obtain ⟨original, inside, named⟩ := earlier
  exact ⟨original, List.mem_append_left _ inside, named⟩

theorem originalsFound_of_commit (found : OriginalsFound a) (commit : Commit hashing allowed a b) :
    OriginalsFound b := by
  cases commit with
  | settings | account | usage => exact found
  | adjusted => exact found.append rfl (fun _ reverses => by cases reverses)
  | reversed permitted balance original same debit positive unused =>
    refine found.append (postReversal_posted unused balance rfl).ledger ?_
    intro id reverses
    exact ⟨_, original, by simpa [reversalEntry, normalizeLedgerEntry] using reverses⟩
  | settled =>
    exact found.append ((chargeMember_same _ _ _ _).ledger.trans rfl) (fun _ reverses => by cases reverses)
  | charged => exact found.append rfl (fun _ reverses => by cases reverses)
  | runCharged =>
    exact found.append ((chargeMember_same _ _ _ _).ledger.trans rfl) (fun _ reverses => by cases reverses)

theorem originalsFound (reachable : Reachable hashing allowed db) : OriginalsFound db := by
  induction reachable with
  | refl => exact fun _ member => (List.not_mem_nil member).elim
  | tail _ commit ih => exact originalsFound_of_commit ih commit

end AgentSaas.Proofs.BillingCommits
