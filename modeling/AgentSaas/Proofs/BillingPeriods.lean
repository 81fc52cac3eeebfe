import Mathlib.Algebra.Order.BigOperators.Group.List
import AgentSaas.Proofs.BillingUsage

/-! A member's period row is what the ledger says about the month, as long as each debit
that is charged to a member finds the row of its own month. -/

namespace AgentSaas.Proofs.BillingPeriods
open AgentSaas.Transactions AgentSaas.Billing BillingCommits BillingRefinement TransactionSafety

variable {hashing : Hashing} {allowed : Request → Prop} {a b db : Database} {entry : BillingLedgerEntry}

def counted (entry : BillingLedgerEntry) : Int :=
  if entry.type = .debit ∨ entry.type = .refund ∨ entry.type = .reversal then -entry.creditsDeltaMicro else 0

def isMembers (db : Database) (tenantId userId : String) (period : BeijingMonth) (entry : BillingLedgerEntry) : Bool :=
  entry.tenantId == tenantId && entry.userId == some userId && beijingMonth (db.ledgerTime entry) == period

def owed (db : Database) (tenantId userId : String) (period : BeijingMonth) : Int :=
  ((db.ledger.filter (isMembers db tenantId userId period)).map counted).sum

theorem memberUsage_eq (db : Database) (tenantId userId : String) (period : BeijingMonth) :
    db.memberUsage tenantId userId period = max 0 (owed db tenantId userId period) := rfl

theorem owed_append (found : OriginalsFound a) (ledger : b.ledger = a.ledger ++ [entry]) (tenantId userId : String)
    (period : BeijingMonth) :
    owed b tenantId userId period =
      owed a tenantId userId period + if isMembers b tenantId userId period entry then counted entry else 0 := by
  have old : a.ledger.filter (isMembers b tenantId userId period) = a.ledger.filter (isMembers a tenantId userId period) := by
    apply List.filter_congr
    intro row member
    have same : b.ledgerTime row = a.ledgerTime row :=
      ledgerTime_within (ledger ▸ List.prefix_append ..) (found row member)
    simp only [isMembers, same]
  rw [owed, owed, ledger, List.filter_append, List.map_append, List.sum_append, old]
  split
  next own => simp [own]
  next other => simp [other]

theorem ledgerTime_own (db : Database) (own : entry.reversesLedgerId = none) : db.ledgerTime entry = entry.createdAt := by
  simp only [Database.ledgerTime, own, Option.bind_none]

theorem ledgerTime_original {original : BillingLedgerEntry} (ids : (db.ledger.map (·.id)).Nodup)
    (member : original ∈ db.ledger) (reverses : entry.reversesLedgerId = some original.id) :
    db.ledgerTime entry = original.createdAt := by
  have first : db.ledger.find? (·.id == original.id) = some original := by
    cases found : db.ledger.find? (·.id == original.id) with
    | none => simpa using List.find?_eq_none.mp found original member
    | some other =>
      have same : other.id = original.id := by simpa using List.find?_some found
      rw [List.inj_on_of_nodup_map ids (List.mem_of_find?_eq_some found) member same]
  simp only [Database.ledgerTime, reverses, Option.bind_some, first]

structure Undoes (original entry : BillingLedgerEntry) : Prop where
  debit : original.type = .debit
  tenant : original.tenantId = entry.tenantId
  user : ∀ userId, entry.userId = some userId → original.userId = some userId
  credits : entry.creditsDeltaMicro = -original.creditsDeltaMicro

structure Books (db : Database) : Prop where
  ids : (db.ledger.map (·.id)).Nodup
  reversals : ∀ row ∈ db.ledger, ∀ id, row.reversesLedgerId = some id →
    ∃ original ∈ db.ledger, original.id = id ∧ Undoes original row
  single : ∀ row ∈ db.ledger, ∀ other ∈ db.ledger, ∀ id, row.reversesLedgerId = some id →
    other.reversesLedgerId = some id → row = other
  debits : ∀ row ∈ db.ledger, row.type = .debit → row.reversesLedgerId = none
  charges : ∀ row ∈ db.ledger, row.type = .debit → row.userId ≠ none → row.creditsDeltaMicro ≤ 0
  others : ∀ row ∈ db.ledger, row.type ≠ .debit → row.userId ≠ none → row.type = .reversal ∧ row.reversesLedgerId ≠ none

theorem Books.found (books : Books db) : OriginalsFound db := by
  intro row member id reverses
  obtain ⟨original, inside, named, -⟩ := books.reversals row member id reverses
  exact ⟨original, inside, named⟩

def originalOf (db : Database) (row : BillingLedgerEntry) : BillingLedgerEntry :=
  (row.reversesLedgerId.bind fun id => db.ledger.find? (·.id == id)).getD row

theorem originalOf_spec (books : Books db) (member : entry ∈ db.ledger) (reverses : entry.reversesLedgerId ≠ none) :
    originalOf db entry ∈ db.ledger ∧ entry.reversesLedgerId = some (originalOf db entry).id ∧
      Undoes (originalOf db entry) entry := by
  obtain ⟨id, named⟩ := Option.ne_none_iff_exists'.mp reverses
  obtain ⟨original, inside, same, undoes⟩ := books.reversals entry member id named
  have first : originalOf db entry = original := by
    cases found : db.ledger.find? (·.id == id) with
    | none => simpa [same] using List.find?_eq_none.mp found original inside
    | some other =>
      have equal : other.id = original.id := by
        rw [same]
        simpa using List.find?_some found
      simp only [originalOf, named, Option.bind_some, found, Option.getD_some]
      exact List.inj_on_of_nodup_map books.ids (List.mem_of_find?_eq_some found) inside equal
  rw [first]
  exact ⟨inside, by rw [named, same], undoes⟩

/-- No more is given back than was taken: each reversal has a debit of its own, of the same
member and month. -/
theorem owed_nonneg (books : Books db) (tenantId userId : String) (period : BeijingMonth) :
    0 ≤ owed db tenantId userId period := by
  let rows := db.ledger.filter (isMembers db tenantId userId period)
  let debits := rows.filter fun row => row.type = .debit
  let reversals := rows.filter fun row => ¬row.type = .debit
  let cost (row : BillingLedgerEntry) : Int := -row.creditsDeltaMicro
  have inRows {row : BillingLedgerEntry} (member : row ∈ rows) : row ∈ db.ledger ∧ row.tenantId = tenantId ∧
      row.userId = some userId ∧ beijingMonth (db.ledgerTime row) = period := by
    obtain ⟨inside, own⟩ := List.mem_filter.mp member
    simp only [isMembers, Bool.and_eq_true, beq_iff_eq] at own
    exact ⟨inside, own.1.1, own.1.2, own.2⟩
  have split : (rows.map counted).sum = (debits.map counted).sum + (reversals.map counted).sum :=
    (List.sum_map_filter_add_sum_map_filter_not (fun row : BillingLedgerEntry => row.type = .debit) counted rows).symm
  have taken : debits.map counted = debits.map cost := by
    apply List.map_congr_left
    intro row member
    have debit : row.type = .debit := of_decide_eq_true (List.mem_filter.mp member).2
    simp [counted, debit, cost]
  have reversing {row : BillingLedgerEntry} (member : row ∈ reversals) : row ∈ rows ∧ row.type = .reversal ∧
      originalOf db row ∈ db.ledger ∧ row.reversesLedgerId = some (originalOf db row).id ∧ Undoes (originalOf db row) row := by
    obtain ⟨inside, other⟩ := List.mem_filter.mp member
    obtain ⟨present, -, user, -⟩ := inRows inside
    obtain ⟨type, reverses⟩ := books.others row present (by simpa using other) (by rw [user]; nofun)
    exact ⟨inside, type, originalOf_spec books present reverses⟩
  have given : (reversals.map counted).sum = -((reversals.map (originalOf db)).map cost).sum := by
    rw [List.sum_neg, List.map_map, List.map_map]
    congr 1
    apply List.map_congr_left
    intro row member
    obtain ⟨-, type, -, -, undoes⟩ := reversing member
    simp [counted, type, cost, undoes.credits]
  have apart : (reversals.map (originalOf db)).Nodup := by
    have nodup : reversals.Nodup := ((List.Nodup.of_map _ books.ids).filter _).filter _
    apply nodup.map_on
    intro row member other also same
    obtain ⟨inside, -, -, first, -⟩ := reversing member
    obtain ⟨outside, -, -, second, -⟩ := reversing also
    exact books.single row (inRows inside).1 other (inRows outside).1 _ first (same ▸ second)
  have subset : reversals.map (originalOf db) ⊆ debits := by
    intro original member
    obtain ⟨row, listed, rfl⟩ := List.mem_map.mp member
    obtain ⟨inside, -, present, reverses, undoes⟩ := reversing listed
    obtain ⟨-, tenant, user, month⟩ := inRows inside
    have time : db.ledgerTime (originalOf db row) = db.ledgerTime row := by
      rw [ledgerTime_own db (books.debits _ present undoes.debit), ledgerTime_original books.ids present reverses]
    apply List.mem_filter.mpr
    refine ⟨List.mem_filter.mpr ⟨present, ?_⟩, by simpa using undoes.debit⟩
    simp only [isMembers, Bool.and_eq_true, beq_iff_eq]
    exact ⟨⟨undoes.tenant.trans tenant, undoes.user userId user⟩, time ▸ month⟩
  have most : ((reversals.map (originalOf db)).map cost).sum ≤ (debits.map cost).sum := by
    obtain ⟨some, same, sublist⟩ := List.subperm_of_subset apart subset
    rw [← (same.map cost).sum_eq]
    apply (sublist.map cost).sum_le_sum
    intro amount member
    obtain ⟨row, listed, rfl⟩ := List.mem_map.mp member
    obtain ⟨inside, debit⟩ := List.mem_filter.mp listed
    obtain ⟨present, -, user, -⟩ := inRows inside
    have small := books.charges row present (by simpa using debit) (by rw [user]; nofun)
    simp only [cost]
    omega
  change 0 ≤ (rows.map counted).sum
  rw [split, taken, given]
  omega

/-- A commit whose debit, if a member is charged, finds what it needs: without a run, that
the month has no row yet; with one, that the row is there and that the clock which picks the
month is in the month of the ledger row. -/
inductive Careful (hashing : Hashing) (allowed : Request → Prop) : Database → Database → Prop
  | uncharged {a b : Database} (commit : Commit hashing allowed a b)
      (other : ∀ entry, b.ledger = a.ledger ++ [entry] → entry.type = .debit → entry.userId = none) :
      Careful hashing allowed a b
  | charged {a : Database} {entry : BillingLedgerEntry} (commit : Commit hashing allowed a (a.post entry)) (debit : entry.type = .debit)
      (paid : entry.userId ≠ none → entry.creditsDeltaMicro ≤ 0)
      (unopened : ∀ userId, entry.userId = some userId → entry.creditsDeltaMicro ≠ 0 →
        a.memberPeriods entry.tenantId userId (beijingMonth entry.createdAt) = none) :
      Careful hashing allowed a (a.post entry)
  | memberCharged {a : Database} {entry : BillingLedgerEntry} {credits time : Int}
      (commit : Commit hashing allowed a ((a.post entry).chargeMember entry credits time))
      (debit : entry.type = .debit) (amount : entry.creditsDeltaMicro = -credits)
      (paid : entry.userId ≠ none → 0 ≤ credits)
      (opened : ∀ userId, entry.userId = some userId → 0 < credits →
        beijingMonth time = beijingMonth entry.createdAt ∧
          (a.memberPeriods entry.tenantId userId (beijingMonth time)).isSome) :
      Careful hashing allowed a ((a.post entry).chargeMember entry credits time)

theorem Careful.commit (careful : Careful hashing allowed a b) : Commit hashing allowed a b := by
  cases careful with
  | uncharged commit | charged commit | memberCharged commit => exact commit

/-- The calls of the store, with careful commits only. -/
def carefulStore (hashing : Hashing) (allowed : Request → Prop) : System Database Lock Outside Reply :=
  { store hashing allowed with permits := fun _ _ => Relation.ReflTransGen (Careful hashing allowed) }

structure Kind (a : Database) (entry : BillingLedgerEntry) : Prop where
  debit : entry.type = .debit → entry.reversesLedgerId = none
  other : entry.type ≠ .debit → entry.userId ≠ none → entry.type = .reversal ∧ entry.reversesLedgerId ≠ none
  reverses : ∀ id, entry.reversesLedgerId = some id → ∃ original ∈ a.ledger, original.id = id ∧ Undoes original entry

theorem Books.append (books : Books a) (ledger : b.ledger = a.ledger ++ [entry]) (unused : a.conflicts entry = false)
    (kind : Kind a entry) (charge : entry.type = .debit → entry.userId ≠ none → entry.creditsDeltaMicro ≤ 0) : Books b := by
  have fresh := conflicts_eq_false.mp unused
  have member {row : BillingLedgerEntry} (present : row ∈ b.ledger) : row ∈ a.ledger ∨ row = entry := by
    rw [ledger, List.mem_append, List.mem_singleton] at present
    exact present
  have kept {row : BillingLedgerEntry} (present : row ∈ a.ledger) : row ∈ b.ledger := by
    rw [ledger]
    exact List.mem_append_left _ present
  constructor
  · rw [ledger, List.map_append, List.nodup_append]
    refine ⟨books.ids, List.nodup_singleton _, ?_⟩
    intro id earlier other later same
    obtain ⟨row, present, rfl⟩ := List.mem_map.mp earlier
    obtain rfl := List.mem_singleton.mp later
    exact (fresh row present).1 same
  · intro row present id reverses
    have known : ∃ original ∈ a.ledger, original.id = id ∧ Undoes original row := by
      rcases member present with old | rfl
      · exact books.reversals row old id reverses
      · exact kind.reverses id reverses
    obtain ⟨original, inside, rest⟩ := known
    exact ⟨original, kept inside, rest⟩
  · intro row present other also id first second
    rcases member present with old | rfl
    · rcases member also with older | rfl
      · exact books.single row old other older id first second
      · exact ((fresh row old).2.2 id second first).elim
    · rcases member also with older | rfl
      · exact ((fresh other older).2.2 id first second).elim
      · rfl
  · intro row present debit
    rcases member present with old | rfl
    · exact books.debits row old debit
    · exact kind.debit debit
  · intro row present debit user
    rcases member present with old | rfl
    · exact books.charges row old debit user
    · exact charge debit user
  · intro row present other user
    rcases member present with old | rfl
    · exact books.others row old other user
    · exact kind.other other user

theorem kind_of_commit (commit : Commit hashing allowed a b) :
    b.ledger = a.ledger ∧ b.memberPeriods = a.memberPeriods ∨ ∃ entry, Posted a entry b ∧ Kind a entry := by
  cases commit with
  | settings | account | usage => exact .inl ⟨rfl, rfl⟩
  | adjusted permitted keyed balance unused =>
    refine .inr ⟨_, .post unused balance rfl, ?_, fun _ user => absurd rfl user, fun _ absent => by cases absent⟩
    intro debit
    rfl
  | @reversed input original before outside permitted balance found same debit positive unused =>
    refine .inr ⟨_, postReversal_posted unused balance rfl, fun same => (by cases same), fun _ _ => ⟨rfl, fun same => (by cases same)⟩, ?_⟩
    intro id reverses
    obtain rfl := Option.some.inj reverses
    refine ⟨original, found, rfl, debit, same.1, fun userId user => truthy_eq_some user, ?_⟩
    simp only [reversalCredits] at positive
    simp only [reversalEntry, reversalCredits, normalizeLedgerEntry]
    omega
  | settled permitted charges balance seen pending unused =>
    exact .inr ⟨_, Posted.after (.post unused balance Int.sub_eq_add_neg) (chargeMember_same _ _ _ _),
      fun _ => rfl, fun other => absurd rfl other, fun _ absent => by cases absent⟩
  | charged permitted charges positive account balance unused =>
    exact .inr ⟨_, .post unused balance Int.sub_eq_add_neg, fun _ => rfl, fun other => absurd rfl other, fun _ absent => by cases absent⟩
  | runCharged permitted charges positive run balance unused =>
    exact .inr ⟨_, Posted.after (.post unused balance Int.sub_eq_add_neg) (chargeMember_same _ _ _ _),
      fun _ => rfl, fun other => absurd rfl other, fun _ absent => by cases absent⟩

theorem Careful.books (books : Books a) (careful : Careful hashing allowed a b) : Books b := by
  rcases kind_of_commit careful.commit with ⟨ledger, -⟩ | ⟨entry, posted, kind⟩
  · obtain ⟨ids, reversals, single, debits, charges, others⟩ := books
    constructor <;> rw [ledger] <;> assumption
  · apply books.append posted.ledger posted.unused kind
    intro debit user
    have same {other : BillingLedgerEntry} (ledger : b.ledger = a.ledger ++ [other]) : other = entry :=
      List.singleton_inj.mp (List.append_cancel_left (ledger.symm.trans posted.ledger))
    cases careful with
    | uncharged commit other => exact absurd (other entry posted.ledger debit) user
    | charged commit debit paid =>
      obtain rfl := same rfl
      exact paid user
    | memberCharged commit debit amount paid =>
      obtain rfl := same ((chargeMember_same _ _ _ _).ledger)
      have enough := paid user
      omega

def Mirrors (db : Database) : Prop :=
  ∀ tenantId userId period used, db.memberPeriods tenantId userId period = some used →
    used = db.memberUsage tenantId userId period

theorem setMemberPeriod_get (db : Database) (tenantId userId : String) (period : BeijingMonth) (used : Int)
    (tenant user : String) (month : BeijingMonth) :
    (db.setMemberPeriod tenantId userId period used).memberPeriods tenant user month =
      if tenant = tenantId ∧ user = userId ∧ month = period then some used else db.memberPeriods tenant user month := by
  simp only [Database.setMemberPeriod, Function.update_apply]
  by_cases same : tenant = tenantId
  · subst same
    rw [if_pos rfl, Function.update_apply]
    by_cases also : user = userId
    · subst also
      rw [if_pos rfl, Function.update_apply]
      simp
    · simp [also]
  · simp [same]

theorem moveMemberPeriod_get {used : Int} {tenantId userId : String} {period : BeijingMonth}
    (present : db.memberPeriods tenantId userId period = some used) (change : Int → Int) (tenant user : String)
    (month : BeijingMonth) :
    (db.moveMemberPeriod tenantId userId period change).memberPeriods tenant user month =
      if tenant = tenantId ∧ user = userId ∧ month = period then some (change used)
      else db.memberPeriods tenant user month := by
  simp only [Database.moveMemberPeriod, present]
  exact setMemberPeriod_get db tenantId userId period (change used) tenant user month

theorem openMemberPeriod_get (mirrors : Mirrors db) (tenantId userId : String) (period : BeijingMonth) (tenant user : String)
    (month : BeijingMonth) :
    (db.openMemberPeriod tenantId userId period).memberPeriods tenant user month =
      if tenant = tenantId ∧ user = userId ∧ month = period then some (db.memberUsage tenantId userId period)
      else db.memberPeriods tenant user month := by
  simp only [Database.openMemberPeriod]
  split
  next present =>
    obtain ⟨used, here⟩ := Option.isSome_iff_exists.mp present
    split
    next same =>
      obtain ⟨rfl, rfl, rfl⟩ := same
      rw [here, mirrors _ _ _ _ here]
    next => rfl
  next => exact setMemberPeriod_get db tenantId userId period _ tenant user month

theorem Mirrors.kept (mirrors : Mirrors a) (periods : b.memberPeriods = a.memberPeriods)
    (owes : ∀ tenantId userId period used, a.memberPeriods tenantId userId period = some used →
      owed b tenantId userId period = owed a tenantId userId period) : Mirrors b := by
  intro tenantId userId period used present
  rw [periods] at present
  rw [memberUsage_eq, owes tenantId userId period used present, ← memberUsage_eq]
  exact mirrors tenantId userId period used present

theorem owed_unnamed (books : Books a) (ledger : b.ledger = a.ledger ++ [entry]) (unnamed : entry.userId = none)
    (tenantId userId : String) (period : BeijingMonth) :
    owed b tenantId userId period = owed a tenantId userId period := by
  have other : isMembers b tenantId userId period entry = false := by simp [isMembers, unnamed]
  rw [owed_append books.found ledger, other]
  exact Int.add_zero _

theorem owed_debit (books : Books a) (ledger : b.ledger = a.ledger ++ [entry]) (debit : entry.type = .debit)
    (own : entry.reversesLedgerId = none) (tenantId userId : String) (period : BeijingMonth) :
    owed b tenantId userId period = owed a tenantId userId period +
      if entry.tenantId = tenantId ∧ entry.userId = some userId ∧ beijingMonth entry.createdAt = period
      then -entry.creditsDeltaMicro else 0 := by
  rw [owed_append books.found ledger]
  simp only [isMembers, ledgerTime_own b own, counted, debit, true_or, if_true, Bool.and_eq_true, beq_iff_eq, and_assoc]

theorem chargeMember_unnamed (db : Database) (credits time : Int) (unnamed : entry.userId = none) :
    db.chargeMember entry credits time = db := by
  simp only [Database.chargeMember, unnamed]

theorem Mirrors.charged (books : Books a) (mirrors : Mirrors a) (debit : entry.type = .debit)
    (own : entry.reversesLedgerId = none)
    (unopened : ∀ userId, entry.userId = some userId → entry.creditsDeltaMicro ≠ 0 →
      a.memberPeriods entry.tenantId userId (beijingMonth entry.createdAt) = none) : Mirrors (a.post entry) := by
  apply mirrors.kept (b := a.post entry) rfl
  intro tenantId userId period used present
  rw [owed_debit books rfl debit own]
  split
  next same =>
    obtain ⟨rfl, user, rfl⟩ := same
    by_cases free : entry.creditsDeltaMicro = 0
    · omega
    · rw [unopened userId user free] at present
      cases present
  next => exact Int.add_zero _

theorem Mirrors.memberCharged (books : Books a) (mirrors : Mirrors a) {credits time : Int} (debit : entry.type = .debit)
    (own : entry.reversesLedgerId = none) (amount : entry.creditsDeltaMicro = -credits)
    (paid : entry.userId ≠ none → 0 ≤ credits)
    (opened : ∀ userId, entry.userId = some userId → 0 < credits → beijingMonth time = beijingMonth entry.createdAt ∧
      (a.memberPeriods entry.tenantId userId (beijingMonth time)).isSome) :
    Mirrors ((a.post entry).chargeMember entry credits time) := by
  cases user : entry.userId with
  | none =>
    rw [chargeMember_unnamed _ _ _ user]
    exact mirrors.charged books debit own fun userId named => by rw [user] at named; cases named
  | some userId =>
    by_cases charge : 0 < credits
    · obtain ⟨month, present⟩ := opened userId user charge
      obtain ⟨used, here⟩ := Option.isSome_iff_exists.mp present
      have ledger : ((a.post entry).chargeMember entry credits time).ledger = a.ledger ++ [entry] :=
        (chargeMember_same _ _ _ _).ledger
      have moved : (a.post entry).chargeMember entry credits time =
          (a.post entry).moveMemberPeriod entry.tenantId userId (beijingMonth time) (· + credits) := by
        have there : ((a.post entry).memberPeriods entry.tenantId userId (beijingMonth time)).isSome := present
        simp only [Database.chargeMember, user, charge, if_true, Database.openMemberPeriod, there]
      have posted : (a.post entry).memberPeriods entry.tenantId userId (beijingMonth time) = some used := here
      intro tenant member period total found
      rw [memberUsage_eq, owed_debit books ledger debit own]
      rw [moved, moveMemberPeriod_get posted] at found
      split at found
      next same =>
        obtain ⟨rfl, rfl, rfl⟩ := same
        cases found
        have before := mirrors _ _ _ _ here
        have nonneg := owed_nonneg books entry.tenantId member (beijingMonth time)
        rw [memberUsage_eq] at before
        rw [if_pos ⟨rfl, user, month.symm⟩]
        omega
      next other =>
        have before := mirrors _ _ _ _ found
        rw [if_neg, Int.add_zero]
        · exact before
        · rintro ⟨rfl, named, rfl⟩
          rw [user] at named
          cases named
          exact other ⟨rfl, rfl, month.symm⟩
    · have free : (a.post entry).chargeMember entry credits time = a.post entry := by
        simp only [Database.chargeMember, user, charge, if_false]
      have none : credits = 0 := by
        have enough := paid (by simp [user])
        omega
      rw [free]
      exact mirrors.charged books debit own fun _ _ some => absurd (by omega) some

/-- A reversal opens the row before it posts, and counts in the month of its debit. -/
theorem Mirrors.reversed (books : Books a) (mirrors : Mirrors a) {original : BillingLedgerEntry}
    (member : original ∈ a.ledger) (type : entry.type = .reversal) (user : entry.userId = truthy original.userId)
    (reverses : entry.reversesLedgerId = some original.id)
    (gives : 0 ≤ entry.creditsDeltaMicro) (unused : a.conflicts entry = false) :
    Mirrors (a.postReversal (normalizeLedgerEntry original) entry) := by
  rw [Database.postReversal]
  split
  next userId named =>
    have ours : entry.userId = some userId := user.trans named
    let period := beijingMonth original.createdAt
    let opened := a.openMemberPeriod entry.tenantId userId period
    have same := openMemberPeriod_same a entry.tenantId userId period
    have here : (opened.post entry).memberPeriods entry.tenantId userId period =
        some (a.memberUsage entry.tenantId userId period) := by
      rw [post_memberPeriods, openMemberPeriod_get mirrors, if_pos ⟨rfl, rfl, rfl⟩]
    let final := (opened.post entry).moveMemberPeriod entry.tenantId userId period
      fun used => max 0 (used - entry.creditsDeltaMicro)
    have ledger : final.ledger = a.ledger ++ [entry] := by
      rw [(moveMemberPeriod_same (opened.post entry) _ _ _ _).ledger, post_ledger, same.ledger]
    have time : final.ledgerTime entry = original.createdAt := by
      apply ledgerTime_original _ _ reverses
      · rw [ledger, List.map_append, List.nodup_append]
        refine ⟨books.ids, List.nodup_singleton _, ?_⟩
        intro id earlier other later equal
        obtain ⟨row, present, rfl⟩ := List.mem_map.mp earlier
        obtain rfl := List.mem_singleton.mp later
        exact ((conflicts_eq_false.mp unused) row present).1 equal
      · rw [ledger]
        exact List.mem_append_left _ member
    change Mirrors final
    intro tenantId member month used found
    rw [memberUsage_eq, owed_append books.found ledger]
    rw [moveMemberPeriod_get here] at found
    split at found
    next own =>
      obtain ⟨rfl, rfl, rfl⟩ := own
      cases found
      have counts : isMembers final entry.tenantId member period entry = true := by
        simp [isMembers, ours, time, period]
      rw [memberUsage_eq, counts, if_pos rfl, counted, if_pos (.inr (.inr type))]
      omega
    next other =>
      have elsewhere : isMembers final tenantId member month entry = false := by
        rw [Bool.eq_false_iff]
        intro counts
        simp only [isMembers, ours, time, Bool.and_eq_true, beq_iff_eq, Option.some.injEq] at counts
        exact other ⟨counts.1.1.symm, counts.1.2.symm, counts.2.symm⟩
      rw [elsewhere]
      rw [post_memberPeriods, openMemberPeriod_get mirrors, if_neg other] at found
      have before := mirrors _ _ _ _ found
      rw [memberUsage_eq] at before
      simpa using before
  next unnamed =>
    have anonymous : entry.userId = none := user.trans unnamed
    apply mirrors.kept (b := a.post entry) rfl
    intro tenantId userId period used _
    exact owed_unnamed books rfl anonymous tenantId userId period

theorem Mirrors.uncharged (books : Books a) (mirrors : Mirrors a) (commit : Commit hashing allowed a b)
    (other : ∀ entry, b.ledger = a.ledger ++ [entry] → entry.type = .debit → entry.userId = none) : Mirrors b := by
  have unnamed {entry : BillingLedgerEntry} (none : entry.userId = none) : Mirrors (a.post entry) := by
    apply mirrors.kept (b := a.post entry) rfl
    intro tenantId userId period used _
    exact owed_unnamed books rfl none tenantId userId period
  cases commit with
  | settings | account | usage => exact mirrors.kept rfl fun _ _ _ _ _ => rfl
  | adjusted permitted keyed balance unused => exact unnamed rfl
  | reversed permitted balance found same debit positive unused =>
    apply mirrors.reversed books found rfl rfl rfl _ unused
    exact Int.le_max_left ..
  | settled permitted charges balance seen pending unused =>
    have none := other _ (chargeMember_same _ _ _ _).ledger rfl
    rw [chargeMember_unnamed _ _ _ none]
    exact unnamed none
  | charged permitted charges positive account balance unused => exact unnamed (other _ rfl rfl)
  | runCharged permitted charges positive run balance unused =>
    have none := other _ (chargeMember_same _ _ _ _).ledger rfl
    rw [chargeMember_unnamed _ _ _ none]
    exact unnamed none

theorem Careful.mirrors (books : Books a) (mirrors : Mirrors a) (careful : Careful hashing allowed a b) : Mirrors b := by
  have own {entry : BillingLedgerEntry} (commit : Commit hashing allowed a b) (ledger : b.ledger = a.ledger ++ [entry])
      (debit : entry.type = .debit) : entry.reversesLedgerId = none := by
    rcases kind_of_commit commit with ⟨same, -⟩ | ⟨posted, effect, kind⟩
    · exact ((List.cons_ne_nil entry []) (List.self_eq_append_right.mp (same.symm.trans ledger))).elim
    · obtain rfl := List.singleton_inj.mp (List.append_cancel_left (ledger.symm.trans effect.ledger))
      exact kind.debit debit
  cases careful with
  | uncharged commit other => exact mirrors.uncharged books commit other
  | charged commit debit paid unopened => exact mirrors.charged books debit (own commit rfl debit) unopened
  | memberCharged commit debit amount paid opened =>
    exact mirrors.memberCharged books debit (own commit (chargeMember_same _ _ _ _).ledger debit) amount paid opened

theorem step_careful {before after : World Database Lock Outside Reply}
    (step : Step (carefulStore hashing allowed) before after) :
    Relation.ReflTransGen (Careful hashing allowed) before.db after.db := by
  cases step with
  | start | crash => exact .refl
  | advance advanced permitted => exact permitted

theorem right_of_careful (books : Books a) (mirrors : Mirrors a) (commits : Relation.ReflTransGen (Careful hashing allowed) a b) :
    Books b ∧ Mirrors b := by
  induction commits with
  | refl => exact ⟨books, mirrors⟩
  | tail _ careful ih => exact ⟨careful.books ih.1, careful.mirrors ih.1 ih.2⟩

theorem empty_books : Books .empty := by
  constructor
  · exact List.nodup_nil
  all_goals
    intro row member
    exact (List.not_mem_nil member).elim

theorem mirrors_of_run {world : World Database Lock Outside Reply}
    (run : Run (carefulStore hashing allowed) ⟨.empty, []⟩ world) : Books world.db ∧ Mirrors world.db := by
  induction run with
  | refl =>
    refine ⟨empty_books, ?_⟩
    intro tenantId userId period used present
    cases present
  | tail _ step ih => exact right_of_careful ih.1 ih.2 (step_careful step)

/-- In every run of the calls whose commits are careful, each member's row holds the debits
less the reversals and refunds of its month, and never less than nothing. -/
theorem periods_mirror (hashing : Hashing) (allowed : Request → Prop) {world : World Database Lock Outside Reply}
    (run : Run (carefulStore hashing allowed) ⟨.empty, []⟩ world) (tenantId userId : String) (period : BeijingMonth)
    (used : Int) (row : world.db.memberPeriods tenantId userId period = some used) :
    used = world.db.memberUsage tenantId userId period :=
  (mirrors_of_run run).2 tenantId userId period used row

/-! A check that finds careful commits in a run of the store. -/

/-- A ledger row that no member is charged with, or one without a run while there is no row. -/
def passes (before : Database) (entry : BillingLedgerEntry) : Bool :=
  entry.type != .debit ||
    match entry.userId with
    | none => true
    | some userId => entry.runId.isNone && entry.creditsDeltaMicro ≤ 0 &&
      (before.memberPeriods entry.tenantId userId (beijingMonth entry.createdAt)).isNone

def check (before after : Database) : Bool :=
  match after.ledger.drop before.ledger.length with
  | [] => true
  | [entry] => passes before entry
  | _ => false

theorem careful_of_passes (commit : Commit hashing allowed a b) (posted : Posted a entry b) (passed : passes a entry = true) :
    Careful hashing allowed a b := by
  have same {other : BillingLedgerEntry} (ledger : b.ledger = a.ledger ++ [other]) : other = entry :=
    List.singleton_inj.mp (List.append_cancel_left (ledger.symm.trans posted.ledger))
  by_cases debit : entry.type = .debit
  · cases user : entry.userId with
    | none =>
      apply Careful.uncharged commit
      intro other ledger _
      rw [same ledger, user]
    | some userId =>
      simp only [passes, debit, user, bne_self_eq_false, Bool.false_or, Bool.and_eq_true, Option.isNone_iff_eq_none,
        decide_eq_true_eq] at passed
      obtain ⟨⟨runless, paid⟩, unopened⟩ := passed
      have plain : b = a.post entry := by
        cases commit with
        | settings | account | usage =>
          exact ((List.cons_ne_nil entry []) (List.self_eq_append_right.mp posted.ledger)).elim
        | adjusted =>
          obtain rfl := same rfl
          rfl
        | reversed permitted balance found named type positive unused =>
          obtain rfl := same (postReversal_posted unused balance rfl).ledger
          cases debit
        | settled =>
          obtain rfl := same (chargeMember_same _ _ _ _).ledger
          cases runless
        | charged =>
          obtain rfl := same rfl
          rfl
        | runCharged permitted charges positive run =>
          obtain rfl := same (chargeMember_same _ _ _ _).ledger
          exact nomatch run.symm.trans runless
      subst plain
      apply Careful.charged commit debit (fun _ => paid)
      intro named mine _
      rw [user] at mine
      cases mine
      exact unopened
  · apply Careful.uncharged commit
    intro other ledger wrong
    rw [same ledger] at wrong
    exact absurd wrong debit

theorem careful_of_quiet (commit : Commit hashing allowed a b) (ledger : b.ledger = a.ledger) : Careful hashing allowed a b := by
  apply Careful.uncharged commit
  intro entry posted _
  exact ((List.cons_ne_nil entry []) (List.self_eq_append_right.mp (ledger.symm.trans posted))).elim

theorem careful_of_check (commits : Commits hashing allowed a b) (checked : check a b = true) :
    Relation.ReflTransGen (Careful hashing allowed) a b := by
  induction commits using Relation.ReflTransGen.head_induction_on with
  | refl => exact .refl
  | @head a c commit rest ih =>
    obtain ⟨more, ledger⟩ := (extends_of_commits rest).ledger
    rcases kind_of_commit commit with ⟨same, periods⟩ | ⟨entry, posted, -⟩
    · refine .head (careful_of_quiet commit same) (ih ?_)
      have alike : passes c = passes a := by
        funext entry
        simp only [passes, periods]
      simpa only [check, same, alike] using checked
    · have added : b.ledger = a.ledger ++ entry :: more := by
        rw [← ledger, posted.ledger, List.append_assoc]
        rfl
      simp only [check, added, List.drop_left] at checked
      cases more with
      | nil =>
        refine .head (careful_of_passes commit posted checked) (ih ?_)
        simp [check, added, posted.ledger]
      | cons => cases checked

theorem careful_of_play {world next : World Database Lock Outside Reply} {schedule : List (Nat × Outside)}
    (run : Run (store hashing allowed) ⟨.empty, []⟩ world)
    (played : world.play (fun _ before after => check before after) schedule = some next) :
    Run (carefulStore hashing allowed) world next := by
  induction schedule generalizing world with
  | nil =>
    cases played
    exact .refl
  | cons turn rest ih =>
    unfold World.play at played
    split at played
    next => cases played
    next middle advanced =>
      split at played
      next checked =>
        have step : Step (store hashing allowed) world middle := .advance advanced trivial
        have holds := ((Rules.Holds.start (.refl : Reachable hashing allowed .empty)).run covers run).1
        have commits : Commits hashing allowed world.db middle.db := (holds.step covers step).2
        exact .head (.advance advanced (careful_of_check commits checked)) (ih (run.tail step) played)
      next => cases played

def fixedDebit (key : String) (credits : Rat) : Request :=
  .chargeFixedDebit ⟨"acme", some "u1", some "ada", key, "tool:image_gen", credits, 0, none, none, none, none⟩

def reversing : List Request :=
  [.changeSettings (fun pricing => pricing) fun _ _ => some BillingUsage.billed, fixedDebit "first" 30000,
    fixedDebit "second" 50000, .reverseDebit ⟨"acme", "d1", "back", "refund", "admin"⟩]

def reversed : Option (World Database Lock Outside Reply) :=
  ((World.mk Database.empty []).spawn (reversing.map (Request.run ⟨id⟩))).play (fun _ before after => check before after)
    (List.replicate 3 (0, ⟨"s", 1⟩) ++ List.replicate 19 (1, ⟨"d1", 2⟩) ++ List.replicate 19 (2, ⟨"d2", 3⟩) ++
      List.replicate 13 (3, ⟨"r1", 4⟩))

theorem spawned (requests : List Request) {permits : List Lock → (Lock → Prop) → Database → Database → Prop} :
    Run { store hashing (fun _ => True) with permits } (World.mk Database.empty [])
      (World.spawn ⟨.empty, []⟩ (requests.map (Request.run hashing))) :=
  run_of_spawn _ (by
    intro program member _
    obtain ⟨request, -, rfl⟩ := List.mem_map.mp member
    exact ⟨request, trivial, rfl⟩)

theorem periods_mirror_reversed : ∃ world, reversed = some world ∧
    world.db.memberPeriods "acme" "u1" ⟨1970, 1⟩ = some 50000 ∧
    (50000 : Int) = world.db.memberUsage "acme" "u1" ⟨1970, 1⟩ := by
  have played : reversed.map (fun world => world.db.memberPeriods "acme" "u1" ⟨1970, 1⟩) = some (some 50000) := by
    decide +kernel
  obtain ⟨world, same, row⟩ := Option.map_eq_some_iff.mp played
  have started : Run (store ⟨id⟩ fun _ => True) (World.mk Database.empty []) _ := spawned reversing
  have run : Run (carefulStore ⟨id⟩ fun _ => True) ⟨.empty, []⟩ world :=
    (spawned reversing).trans (careful_of_play started same)
  exact ⟨world, same, row, periods_mirror ⟨id⟩ (fun _ => True) run "acme" "u1" ⟨1970, 1⟩ 50000 row⟩

def settled : Option (World Database Lock Outside Reply) :=
  ((World.mk Database.empty []).spawn ((BillingUsage.settlements.take 3).map (Request.run BillingUsage.sampleHashing))).play
    (fun _ _ _ => true)
    (List.replicate 3 (0, ⟨"a", 1⟩) ++ List.replicate 14 (1, ⟨"e1", 2⟩) ++ List.replicate 24 (2, ⟨"b", 3⟩))

theorem settled_twice : ¬∀ world, Run (store BillingUsage.sampleHashing fun _ => True) ⟨.empty, []⟩ world →
    ∀ tenantId userId period used, world.db.memberPeriods tenantId userId period = some used →
      used = world.db.memberUsage tenantId userId period := by
  intro claim
  have played : settled.map (fun world => (world.db.memberPeriods "acme" "u1" ⟨1970, 1⟩,
      world.db.memberUsage "acme" "u1" ⟨1970, 1⟩)) = some (some 9000000, 4500000) := by decide +kernel
  obtain ⟨world, same, observed⟩ := Option.map_eq_some_iff.mp played
  obtain ⟨row, usage⟩ := Prod.mk.inj observed
  have run : Run (store BillingUsage.sampleHashing fun _ => True) ⟨.empty, []⟩ world :=
    Relation.ReflTransGen.trans (spawned (BillingUsage.settlements.take 3)) (run_of_play (fun _ _ _ _ _ => trivial) same)
  have wrong := claim world run "acme" "u1" ⟨1970, 1⟩ 9000000 row
  rw [usage] at wrong
  cases wrong

end AgentSaas.Proofs.BillingPeriods
