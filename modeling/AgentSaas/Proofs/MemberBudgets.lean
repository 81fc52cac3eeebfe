import AgentSaas.Billing.MemberBudgets
import AgentSaas.Proofs.TransactionFootprints
import AgentSaas.Proofs.TransactionSafety
import AgentSaas.Splitting
import Mathlib.Data.List.Induction

/-! The budget of a member is what its audit says: every entry starts where the one before it
ended, and the version counts them. -/

namespace AgentSaas.Proofs.MemberBudgets
open AgentSaas.Billing.Allowance AgentSaas.Billing.MemberBudgets
open AgentSaas.Transactions TransactionSafety TransactionFootprints
open Splitting (split_concat)

structure BudgetValues where
  limit : Option Int
  mode : EnforcementMode
  perRunLimit : Option Int
  active : Bool
  deriving DecidableEq

def unset : BudgetValues := ⟨none, .notify, none, false⟩

def valuesOf : Option MemberBudget → BudgetValues
  | none => unset
  | some row => ⟨row.monthlyLimitCreditsMicro, row.enforcementMode, row.perRunLimitCreditsMicro, row.active⟩

def before (entry : MemberBudgetAuditEntry) : BudgetValues :=
  ⟨entry.beforeLimitCreditsMicro, entry.beforeEnforcementMode, entry.beforePerRunLimitCreditsMicro, entry.beforeActive⟩

def after (entry : MemberBudgetAuditEntry) : BudgetValues :=
  ⟨entry.afterLimitCreditsMicro, entry.afterEnforcementMode, entry.afterPerRunLimitCreditsMicro, entry.afterActive⟩

def lastAfter (entries : List MemberBudgetAuditEntry) : BudgetValues := (entries.getLast?.map after).getD unset

/-- The row that one more entry leaves. -/
def applied (current : Option MemberBudget) (entry : MemberBudgetAuditEntry) : MemberBudget :=
  onConflict
    { monthlyLimitCreditsMicro := entry.afterLimitCreditsMicro
      enforcementMode := entry.afterEnforcementMode
      perRunLimitCreditsMicro := entry.afterPerRunLimitCreditsMicro
      active := entry.afterActive
      version := currentVersion current + 1
      createdBy := entry.actorUsername
      createdAt := entry.createdAt
      updatedBy := entry.actorUsername
      updatedAt := entry.createdAt } current

def rowOf (entries : List MemberBudgetAuditEntry) : Option MemberBudget :=
  entries.foldl (fun current entry => some (applied current entry)) none

theorem rowOf_concat (entries : List MemberBudgetAuditEntry) (entry : MemberBudgetAuditEntry) :
    rowOf (entries ++ [entry]) = some (applied (rowOf entries) entry) := List.foldl_append

theorem version_rowOf (entries : List MemberBudgetAuditEntry) : currentVersion (rowOf entries) = entries.length := by
  induction entries using List.reverseRecOn with
  | nil => rfl
  | append_singleton entries entry ih =>
    have next : (applied (rowOf entries) entry).version = currentVersion (rowOf entries) + 1 := by
      unfold applied onConflict
      split <;> rfl
    rw [rowOf_concat, currentVersion, Option.map_some, Option.getD_some, next, ih]
    simp

theorem values_rowOf (entries : List MemberBudgetAuditEntry) : valuesOf (rowOf entries) = lastAfter entries := by
  induction entries using List.reverseRecOn with
  | nil => rfl
  | append_singleton entries entry _ =>
    rw [rowOf_concat, lastAfter, List.getLast?_concat]
    unfold applied onConflict
    split <;> rfl

theorem applied_auditEntry (input : UpsertMemberBudgetInput) (current : Option MemberBudget) (id : String) :
    onConflict (nextBudget input current) current = applied current (auditEntry input current id) := by
  cases current <;> rfl

theorem before_auditEntry (input : UpsertMemberBudgetInput) (current : Option MemberBudget) (id : String) :
    before (auditEntry input current id) = valuesOf current := by
  cases current <;> rfl

variable {δ : Type} {a b db : Budgets δ} {tenantId userId idempotencyKey : String} {row : AuditRow δ}

/-- The audit entries of a member, in the order of their commits. -/
def entries (db : Budgets δ) (tenantId userId : String) : List MemberBudgetAuditEntry :=
  (db.audit.map (·.entry)).filter fun entry => entry.tenantId = tenantId ∧ entry.userId = userId

/-- The audit rows of a call. -/
def written (index : Nat) (db : Budgets δ) : List (AuditRow δ) := db.audit.filter (·.writer = index)

structure Projected (db : Budgets δ) : Prop where
  rows : ∀ tenantId userId, db.memberBudgets tenantId userId = rowOf (entries db tenantId userId)
  chained : ∀ tenantId userId done entry rest, entries db tenantId userId = done ++ entry :: rest →
    before entry = valuesOf (rowOf done)
  keys : ∀ row ∈ db.audit, db.findAudit row.entry.tenantId row.entry.idempotencyKey = some row

theorem Projected.empty : Projected (Budgets.empty : Budgets δ) := by
  refine ⟨fun _ _ => rfl, fun _ _ done entry rest same => ?_, fun _ member => ?_⟩
  · have impossible : ([] : List MemberBudgetAuditEntry) = done ++ entry :: rest := same
    simp at impossible
  · cases member

theorem findAudit_mem (found : db.findAudit tenantId idempotencyKey = some row) :
    row ∈ db.audit ∧ row.entry.tenantId = tenantId ∧ row.entry.idempotencyKey = idempotencyKey := by
  have matched := List.find?_some found
  simp only [Bool.and_eq_true, beq_iff_eq] at matched
  exact ⟨List.mem_of_find?_eq_some found, matched⟩

theorem same_row {left right : AuditRow δ} (valid : Projected db) (mine : left ∈ db.audit) (other : right ∈ db.audit)
    (tenantId : left.entry.tenantId = right.entry.tenantId)
    (key : left.entry.idempotencyKey = right.entry.idempotencyKey) : left = right := by
  have found := valid.keys left mine
  rw [tenantId, key, valid.keys right other] at found
  exact (Option.some.inj found).symm

/-- The commit of one change. -/
def changed (db : Budgets δ) (budget : MemberBudget) (row : AuditRow δ) : Budgets δ :=
  (db.setBudget row.entry.tenantId row.entry.userId budget).appendAudit row

theorem entries_changed (budget : MemberBudget) : entries (changed db budget row) tenantId userId =
    entries db tenantId userId ++ if row.entry.tenantId = tenantId ∧ row.entry.userId = userId then [row.entry] else [] := by
  change List.filter _ (List.map _ (db.audit ++ [row])) = _
  rw [List.map_append, List.filter_append]
  congr 1
  simp only [List.map_singleton, List.filter_singleton, Bool.cond_decide]

theorem findAudit_changed (budget : MemberBudget) : (changed db budget row).findAudit tenantId idempotencyKey =
    (db.findAudit tenantId idempotencyKey).or
      (if row.entry.tenantId = tenantId ∧ row.entry.idempotencyKey = idempotencyKey then some row else none) := by
  change List.find? _ (db.audit ++ [row]) = _
  rw [List.find?_append]
  congr 1
  simp only [List.find?_singleton, Bool.and_eq_true, beq_iff_eq]

theorem memberBudgets_changed (budget : MemberBudget) : (changed db budget row).memberBudgets tenantId userId =
    if row.entry.tenantId = tenantId ∧ row.entry.userId = userId then some budget else db.memberBudgets tenantId userId := by
  change Function.update db.memberBudgets row.entry.tenantId
    (Function.update (db.memberBudgets row.entry.tenantId) row.entry.userId (some budget)) tenantId userId = _
  by_cases sameTenant : tenantId = row.entry.tenantId
  · subst sameTenant
    rw [Function.update_self, Function.update_apply]
    simp [eq_comm]
  · rw [Function.update_of_ne sameTenant, if_neg fun same => sameTenant same.1.symm]

theorem Projected.changed (valid : Projected db) {budget : MemberBudget}
    (starts : before row.entry = valuesOf (db.memberBudgets row.entry.tenantId row.entry.userId))
    (leaves : budget = applied (db.memberBudgets row.entry.tenantId row.entry.userId) row.entry)
    (unused : db.findAudit row.entry.tenantId row.entry.idempotencyKey = none) : Projected (changed db budget row) := by
  refine ⟨fun tenantId userId => ?_, fun tenantId userId done entry rest same => ?_, fun other member => ?_⟩
  · rw [memberBudgets_changed, entries_changed]
    split
    next own =>
      obtain ⟨rfl, rfl⟩ := own
      rw [rowOf_concat, ← valid.rows, leaves]
    next => rw [List.append_nil, valid.rows]
  · rw [entries_changed] at same
    split at same
    next own =>
      obtain ⟨rfl, rfl⟩ := own
      obtain ⟨rfl, rfl, -⟩ | ⟨more, -, before⟩ := split_concat same
      · rw [starts, valid.rows]
      · exact valid.chained _ _ _ _ _ before
    next =>
      rw [List.append_nil] at same
      exact valid.chained _ _ _ _ _ same
  · rw [findAudit_changed]
    obtain old | new := List.mem_append.mp member
    · rw [valid.keys other old]
      rfl
    · rw [List.mem_singleton.mp new, unused, if_pos ⟨rfl, rfl⟩]
      rfl

theorem entries_mono (grows : a.audit <+: b.audit) : entries a tenantId userId <+: entries b tenantId userId :=
  (grows.map _).filter _

/-- The member's lock keeps its entries, and the key's lock what the key finds. -/
def keeps (a b : Budgets δ) : Lock → Prop
  | .member text => ∀ tenantId userId, tenantId ++ ":" ++ userId = text → entries b tenantId userId = entries a tenantId userId
  | .key text => ∀ tenantId idempotencyKey, tenantId ++ ":" ++ idempotencyKey = text →
    b.findAudit tenantId idempotencyKey = a.findAudit tenantId idempotencyKey
  | .budget .. | .auditRow _ | .auditId _ | .auditKey .. => True

def rules (δ : Type) : Rules (Budgets δ) Lock where
  invariant := Projected
  grows a b := a.audit <+: b.audit
  keeps lock a b := keeps a b lock
  permits _ _ _ _ := True
  grows_refl _ := List.prefix_refl _
  grows_trans := List.IsPrefix.trans
  keeps_refl lock db := by
    cases lock with
    | member | key => exact fun _ _ _ => rfl
    | budget | auditRow | auditId | auditKey => trivial
  keeps_trans {lock _ _ _} first last := by
    cases lock with
    | member | key => exact fun left right same => (last left right same).trans (first left right same)
    | budget | auditRow | auditId | auditKey => trivial

section Calls

variable {digest : RequestFields → δ} {index : Nat} {input : UpsertMemberBudgetInput}
  {result : UpsertMemberBudgetResult} {transaction : Open (Budgets δ) Lock} {held : List Lock}

def memberLock (input : UpsertMemberBudgetInput) : Lock := .member (input.tenantId ++ ":" ++ input.userId)

def keyLock (input : UpsertMemberBudgetInput) : Lock := .key (input.tenantId ++ ":" ++ input.idempotencyKey)

theorem kept_entries (moved : (rules δ).Moves held a b) (own : memberLock input ∈ held) :
    entries b input.tenantId input.userId = entries a input.tenantId input.userId := moved.2 _ own _ _ rfl

theorem kept_key (moved : (rules δ).Moves held a b) (own : keyLock input ∈ held) :
    b.findAudit input.tenantId input.idempotencyKey = a.findAudit input.tenantId input.idempotencyKey := moved.2 _ own _ _ rfl

/-- The row that answers a call, and its place among the entries of the member when the call
wrote it. -/
structure Answered (digest : RequestFields → δ) (index : Nat) (input : UpsertMemberBudgetInput)
    (result : UpsertMemberBudgetResult) (row : AuditRow δ) (db : Budgets δ) : Prop where
  stored : row ∈ db.audit
  returned : row.entry = result.audit
  fingerprint : row.requestFingerprint = digest input.fields
  tenantId : row.entry.tenantId = input.tenantId
  key : row.entry.idempotencyKey = input.idempotencyKey
  writer : result.replayed = false → row.writer = index
  place : result.replayed = false → ∃ done rest, entries db input.tenantId input.userId = done ++ result.audit :: rest ∧
    (done.length : Int) = input.expectedVersion

def Post (digest : RequestFields → δ) (index : Nat) (input : UpsertMemberBudgetInput) :
    Except BudgetError UpsertMemberBudgetResult → Budgets δ → Prop
  | .ok result, db => ∃ row, Answered digest index input result row db
  | .error _, _ => True

theorem Answered.later (answered : Answered digest index input result row a) (grows : a.audit <+: b.audit) :
    Answered digest index input result row b := by
  refine { answered with stored := grows.subset answered.stored, place := fun first => ?_ }
  obtain ⟨done, rest, same, length⟩ := answered.place first
  have mono : entries a input.tenantId input.userId <+: entries b input.tenantId input.userId := entries_mono grows
  obtain ⟨more, longer⟩ := mono
  exact ⟨done, rest ++ more, by rw [← longer, same, List.append_assoc, List.cons_append], length⟩

theorem Post.later {value : Except BudgetError UpsertMemberBudgetResult} (post : Post digest index input value a)
    (grows : a.audit <+: b.audit) : Post digest index input value b := by
  cases value with
  | ok result =>
    obtain ⟨row, answered⟩ := post
    exact ⟨row, answered.later grows⟩
  | error => trivial

theorem answer_safe {rules : Rules (Budgets δ) Lock} {post : Except BudgetError UpsertMemberBudgetResult → Budgets δ → Prop}
    {current : Option MemberBudget} {audit : MemberBudgetAuditEntry} {replayed : Bool}
    (answers : ∀ budget later, rules.invariant later → rules.grows db later → post (.ok ⟨budget, audit, replayed⟩) later) :
    rules.Safe (fun value _ => post value) (answer input current audit replayed) .closed db := by
  refine Rules.Safe.answer fun outside => ?_
  refine Rules.Safe.executeRead fun snapshot later _ first _ last => ?_
  exact fun final kept moved => answers _ final kept (rules.grows_trans first (rules.grows_trans last moved.1))

theorem abort_safe (error : BudgetError) :
    (rules δ).Safe (fun value _ => Post digest index input value) (abort error) transaction db :=
  Rules.Safe.rollback fun _ _ _ _ _ _ => trivial

theorem changed_commits {budget : MemberBudget} (valid : Projected (changed db budget row))
    (member : .member (row.entry.tenantId ++ ":" ++ row.entry.userId) ∈ held)
    (key : .key (row.entry.tenantId ++ ":" ++ row.entry.idempotencyKey) ∈ held) :
    (rules δ).Commits held db (changed db budget row) := by
  intro others apart _
  refine ⟨valid, List.prefix_append _ _, fun lock owned => ?_⟩
  cases lock with
  | member text =>
    rintro tenantId userId rfl
    rw [entries_changed, if_neg, List.append_nil]
    rintro ⟨rfl, rfl⟩
    exact apart _ member owned
  | key text =>
    rintro tenantId idempotencyKey rfl
    rw [findAudit_changed, if_neg, Option.or_none]
    rintro ⟨rfl, rfl⟩
    exact apart _ key owned
  | budget | auditRow | auditId | auditKey => trivial

theorem insertAudit_patch {snapshot third later : Budgets δ} {next : MemberBudget} (blank : transaction.patch = id)
    (own : row.entry.tenantId = tenantId ∧ row.entry.userId = userId)
    (fresh : ¬((transaction.after (upsertBudget tenantId userId next) snapshot).patch third).conflicts row.entry) :
    ((transaction.after (upsertBudget tenantId userId next) snapshot).after (insertAudit row) third).patch later =
      changed later (onConflict next (later.memberBudgets tenantId userId)) row := by
  change (if _ then _ else Budgets.appendAudit _ row) = _
  rw [if_neg fresh]
  change Budgets.appendAudit (Budgets.setBudget (transaction.patch later) _ _ _) row = _
  rw [blank, ← own.1, ← own.2]
  rfl

theorem writeBudget_safe {current : Option MemberBudget} (blank : transaction.patch = id)
    (member : memberLock input ∈ transaction.held) (key : keyLock input ∈ transaction.held)
    (unused : db.findAudit input.tenantId input.idempotencyKey = none)
    (same : current = rowOf (entries db input.tenantId input.userId))
    (agreed : currentVersion current = input.expectedVersion) :
    (rules δ).Safe (fun value _ => Post digest index input value) (writeBudget digest index input current) transaction db := by
  refine Rules.Safe.query fun first _ moved => ?_
  refine Rules.Safe.answer fun outside => ?_
  refine Rules.Safe.query fun second _ moved' => ?_
  have held : transaction.held ⊆ (transaction.after (upsertBudget input.tenantId input.userId (nextBudget input current)) first).held :=
    List.subset_append_right _ _
  by_cases fresh : ((transaction.after (upsertBudget input.tenantId input.userId (nextBudget input current)) first).patch
    second).conflicts (auditRow digest index input current outside.uuid).entry
  · rw [if_neg (by simpa [insertAudit] using fresh)]
    exact abort_safe _
  · rw [if_pos (by simpa [insertAudit] using fresh)]
    refine Rules.Safe.commit fun third valid moved'' => ?_
    have wider : transaction.held ⊆ ((transaction.after (upsertBudget input.tenantId input.userId (nextBudget input current)) first).after
        (insertAudit (auditRow digest index input current outside.uuid)) second).held :=
      List.Subset.trans held (List.subset_append_right _ _)
    have later : (rules δ).Moves transaction.held db third := (moved.trans (moved'.mono held)).trans (moved''.mono wider)
    have entries := kept_entries later member
    have row := valid.rows input.tenantId input.userId
    rw [entries, ← same] at row
    have own : (auditRow digest index input current outside.uuid).entry.tenantId = input.tenantId ∧
        (auditRow digest index input current outside.uuid).entry.userId = input.userId := ⟨rfl, rfl⟩
    rw [insertAudit_patch blank own fresh, row]
    have kept : Projected (changed third (onConflict (nextBudget input current) current)
        (auditRow digest index input current outside.uuid)) := by
      apply Projected.changed valid
      · exact (before_auditEntry input current outside.uuid).trans (congrArg valuesOf row.symm)
      · refine (applied_auditEntry input current outside.uuid).trans ?_
        exact congrArg (applied · (auditEntry input current outside.uuid)) row.symm
      · exact (kept_key later key).trans unused
    refine ⟨changed_commits kept (wider member) (wider key), fun _ => answer_safe fun budget final _ grows => ?_⟩
    have done : Answered digest index input ⟨budget, auditEntry input current outside.uuid, false⟩
        (auditRow digest index input current outside.uuid) (changed third (onConflict (nextBudget input current) current)
          (auditRow digest index input current outside.uuid)) := by
      refine ⟨List.mem_append_right _ List.mem_cons_self, rfl, rfl, rfl, rfl, fun _ => rfl, fun _ => ?_⟩
      refine ⟨MemberBudgets.entries third input.tenantId input.userId, [], ?_, ?_⟩
      · rw [entries_changed, if_pos ⟨rfl, rfl⟩]
        rfl
      · rw [entries, ← version_rowOf, ← same, agreed]
    exact ⟨_, done.later grows⟩

theorem changeBudget_safe (blank : transaction.patch = id) (member : memberLock input ∈ transaction.held)
    (key : keyLock input ∈ transaction.held) (unused : db.findAudit input.tenantId input.idempotencyKey = none) :
    (rules δ).Safe (fun value _ => Post digest index input value) (changeBudget digest index input) transaction db := by
  refine Rules.Safe.lock fun later valid moved => ?_
  rw [blank]
  split
  next agreed =>
    refine writeBudget_safe rfl (List.mem_append_right _ member) (List.mem_append_right _ key) ?_ (valid.rows _ _) agreed
    exact (kept_key moved key).trans unused
  next => exact abort_safe _

theorem replayAudit_safe [DecidableEq δ] (blank : transaction.patch = id)
    (found : db.findAudit input.tenantId input.idempotencyKey = some row) :
    (rules δ).Safe (fun value _ => Post digest index input value) (replayAudit digest input row) transaction db := by
  unfold replayAudit
  split
  next equal =>
    obtain ⟨stored, tenantId, key⟩ := findAudit_mem found
    refine Rules.Safe.commit fun later valid moved => ?_
    rw [blank]
    refine ⟨.unchanged valid, fun _ => answer_safe fun budget final _ grows => ?_⟩
    exact ⟨row, (moved.1.trans grows).subset stored, rfl, equal, tenantId, key, nofun, nofun⟩
  next => exact abort_safe _

theorem upsertMemberBudget_safe [DecidableEq δ] :
    (rules δ).Safe (fun value _ => Post digest index input value) (upsertMemberBudget digest index input) .closed db := by
  refine Rules.Safe.lock fun _ _ _ => ?_
  refine Rules.Safe.lock fun _ _ _ => ?_
  refine Rules.Safe.lock fun later _ _ => ?_
  have member : memberLock input ∈ [keyLock input] ++ ([memberLock input] ++ []) := by simp
  have key : keyLock input ∈ [keyLock input] ++ ([memberLock input] ++ []) := by simp
  split
  next row found => exact replayAudit_safe rfl found
  next unused =>
    exact changeBudget_safe rfl (List.mem_append_right _ member) (List.mem_append_right _ key) unused

def footprint (δ : Type) : Footprint (Budgets δ) (List (AuditRow δ)) := ⟨written, fun _ own => own.length ≤ 1⟩

def Wrote : Except BudgetError UpsertMemberBudgetResult → List (AuditRow δ) → Prop
  | .ok result, own => if result.replayed then own = [] else own.map (·.entry) = [result.audit]
  | .error _, own => own = []

theorem written_changed {budget : MemberBudget} {other : Nat} : written other (changed db budget row) =
    written other db ++ if row.writer = other then [row] else [] := by
  change List.filter _ (db.audit ++ [row]) = _
  rw [List.filter_append]
  congr 1
  simp only [List.filter_singleton, Bool.cond_decide]

theorem answer_tracks {current : Option MemberBudget} {audit : MemberBudgetAuditEntry} {replayed : Bool}
    {own : List (AuditRow δ)} (single : own.length ≤ 1) (wrote : ∀ budget, Wrote (.ok ⟨budget, audit, replayed⟩) own) :
    (footprint δ).Tracks index (fun value _ => Wrote value) (answer input current audit replayed) .closed own := by
  refine Footprint.Tracks.answer fun outside => ?_
  intro snapshot later same
  have still : written index later = own := same
  refine ⟨fun _ _ => rfl, (congrArg List.length same).trans_le single, ?_⟩
  exact (congrArg (Wrote _) still).mpr (wrote _)

theorem abort_tracks (error : BudgetError) :
    (footprint δ).Tracks index (fun value _ => Wrote value) (abort error) transaction [] := rfl

theorem writeBudget_tracks {current : Option MemberBudget} (blank : transaction.patch = id) :
    (footprint δ).Tracks index (fun value _ => Wrote value) (writeBudget digest index input current) transaction [] := by
  refine Footprint.Tracks.query fun first => ?_
  refine Footprint.Tracks.answer fun outside => ?_
  refine Footprint.Tracks.query fun second => ?_
  by_cases fresh : ((transaction.after (upsertBudget input.tenantId input.userId (nextBudget input current)) first).patch
    second).conflicts (auditRow digest index input current outside.uuid).entry
  · rw [if_neg (by simpa [insertAudit] using fresh)]
    exact abort_tracks _
  · rw [if_pos (by simpa [insertAudit] using fresh)]
    refine Footprint.Tracks.commit fun db empty => ?_
    have own : (auditRow digest index input current outside.uuid).entry.tenantId = input.tenantId ∧
        (auditRow digest index input current outside.uuid).entry.userId = input.userId := ⟨rfl, rfl⟩
    rw [insertAudit_patch blank own fresh]
    have mine : written index (changed db (onConflict (nextBudget input current) (db.memberBudgets input.tenantId input.userId))
        (auditRow digest index input current outside.uuid)) = [auditRow digest index input current outside.uuid] := by
      have none : written index db = [] := empty
      rw [written_changed, none]
      exact if_pos rfl
    change _ ∧ (written index _).length ≤ 1 ∧ (footprint δ).Tracks index _ _ _ (written index _)
    rw [mine]
    refine ⟨fun other apart => ?_, Nat.le_refl 1, answer_tracks (Nat.le_refl 1) fun _ => rfl⟩
    refine written_changed.trans ?_
    rw [if_neg fun same => apart same.symm]
    exact List.append_nil _

theorem upsertMemberBudget_tracks [DecidableEq δ] :
    (footprint δ).Tracks index (fun value _ => Wrote value) (upsertMemberBudget digest index input) .closed [] := by
  refine Footprint.Tracks.query fun _ => ?_
  refine Footprint.Tracks.query fun _ => ?_
  refine Footprint.Tracks.query fun snapshot => ?_
  split
  next row found =>
    unfold replayAudit
    split
    next =>
      refine Footprint.Tracks.commit fun db empty => ?_
      refine ⟨fun _ _ => rfl, ?_, ?_⟩
      · exact (congrArg List.length empty).trans_le (Nat.zero_le 1)
      · change (footprint δ).Tracks index _ _ _ (written index db)
        have none : written index db = [] := empty
        rw [none]
        exact answer_tracks (Nat.zero_le 1) fun _ => rfl
    next => exact abort_tracks _
  next =>
    refine Footprint.Tracks.query fun _ => ?_
    split
    next => exact writeBudget_tracks rfl
    next => exact abort_tracks _

end Calls

variable [DecidableEq δ] {digest : RequestFields → δ} {inputs : Nat → UpsertMemberBudgetInput}
  {world final : World (Budgets δ) Lock Outside (Except BudgetError UpsertMemberBudgetResult)}

abbrev Calls (δ : Type) := World (Budgets δ) Lock Outside (Except BudgetError UpsertMemberBudgetResult)

def start : Calls δ := ⟨.empty, []⟩

theorem covers (digest : RequestFields → δ) (inputs : Nat → UpsertMemberBudgetInput) :
    (rules δ).Covers (service digest inputs) fun index => Post digest index (inputs index) where
  permits _ := trivial
  admits {index _ _} admitted _ := by
    obtain rfl := admitted
    exact upsertMemberBudget_safe
  lasting _ grows post := post.later grows

theorem holds (run : Run (service digest inputs) start world) :
    (rules δ).Holds (fun index => Post digest index (inputs index)) world := by
  have valid : (rules δ).invariant Budgets.empty := .empty
  exact ((Rules.Holds.start valid).run (covers digest inputs) run).1

theorem wrote (run : Run (service digest inputs) start world) :
    (footprint δ).Holds (fun _ => Wrote) [] world := by
  have first : (footprint δ).Holds (fun _ => Wrote) [] (start : Calls δ) :=
    ⟨fun _ => Nat.zero_le 1, fun _ _ => rfl, fun found => by cases found⟩
  refine first.run ?_ run
  rintro index program rfl
  exact upsertMemberBudget_tracks

theorem repeated_safe {index : Nat} {input : UpsertMemberBudgetInput} (tenantId : row.entry.tenantId = input.tenantId)
    (key : row.entry.idempotencyKey = input.idempotencyKey) (fingerprint : row.requestFingerprint = digest input.fields) :
    ((rules δ).adding (row ∈ ·.audit)).Safe (fun value _ _ => ∃ budget, value = .ok ⟨budget, row.entry, true⟩)
      (upsertMemberBudget digest index input) .closed db := by
  refine Rules.Safe.lock fun _ _ _ => ?_
  refine Rules.Safe.lock fun _ _ _ => ?_
  refine Rules.Safe.lock fun later valid _ => ?_
  have found : later.findAudit input.tenantId input.idempotencyKey = some row := by
    rw [← tenantId, ← key]
    exact valid.1.keys row valid.2
  split
  next other known =>
    obtain rfl := Option.some.inj (found.symm.trans known)
    change Rules.Safe _ _ (if _ then _ else _) _ _
    rw [if_pos fingerprint]
    refine Rules.Safe.commit fun final kept _ => ⟨.unchanged kept, fun _ => answer_safe fun budget _ _ _ => ⟨budget, rfl⟩⟩
  next unknown => exact absurd (found.symm.trans unknown) (Option.some_ne_none _)

def Returned (world : Calls δ) (index : Nat) (result : UpsertMemberBudgetResult) : Prop :=
  world.calls[index]? = some (.finished (.ok result))

/-- Every success that is no replay is one entry, at the place of the version it expected. -/
structure OneChain (inputs : Nat → UpsertMemberBudgetInput) (world : Calls δ) : Prop where
  version : ∀ tenantId userId,
    currentVersion (world.db.memberBudgets tenantId userId) = (entries world.db tenantId userId).length
  values : ∀ tenantId userId, valuesOf (world.db.memberBudgets tenantId userId) = lastAfter (entries world.db tenantId userId)
  chained : ∀ tenantId userId done entry rest, entries world.db tenantId userId = done ++ entry :: rest →
    before entry = lastAfter done
  success : ∀ index result, Returned world index result → result.replayed = false →
    (written index world.db).map (·.entry) = [result.audit] ∧
    ∃ done rest, entries world.db (inputs index).tenantId (inputs index).userId = done ++ result.audit :: rest ∧
      (done.length : Int) = (inputs index).expectedVersion
  once : ∀ first last one two, Returned world first one → Returned world last two →
    one.replayed = false → two.replayed = false → (inputs first).tenantId = (inputs last).tenantId →
    (inputs first).userId = (inputs last).userId → (inputs first).expectedVersion = (inputs last).expectedVersion → first = last
  sameKey : ∀ first last one two, Returned world first one → Returned world last two →
    (inputs first).tenantId = (inputs last).tenantId → (inputs first).idempotencyKey = (inputs last).idempotencyKey →
    one.audit = two.audit ∧ (inputs first).fields = (inputs last).fields
  unwritten : ∀ index value, world.calls[index]? = some (.finished value) →
    (∀ result, value = .ok result → result.replayed) → written index world.db = []

/-- A call that starts after its key was answered. -/
def Repeats (inputs : Nat → UpsertMemberBudgetInput) (world final : Calls δ) : Prop :=
  ∀ first result, Returned world first result → ∀ index value, world.calls.length ≤ index →
    final.calls[index]? = some (.finished value) → (inputs index).tenantId = (inputs first).tenantId →
    (inputs index).idempotencyKey = (inputs first).idempotencyKey → (inputs index).fields = (inputs first).fields →
    (∃ budget, value = .ok ⟨budget, result.audit, true⟩) ∧ written index final.db = []

theorem answered (run : Run (service digest inputs) start world) {index : Nat} {result : UpsertMemberBudgetResult}
    (returned : Returned world index result) : ∃ row, Answered digest index (inputs index) result row world.db :=
  (holds run).fits returned

theorem success (run : Run (service digest inputs) start world) {index : Nat} {result : UpsertMemberBudgetResult}
    (returned : Returned world index result) (first : result.replayed = false) :
    (written index world.db).map (·.entry) = [result.audit] ∧
    ∃ done rest, entries world.db (inputs index).tenantId (inputs index).userId = done ++ result.audit :: rest ∧
      (done.length : Int) = (inputs index).expectedVersion := by
  obtain ⟨row, answered⟩ := answered run returned
  have own : if result.replayed = true then _ else _ := (wrote run).fits returned
  rw [first] at own
  exact ⟨own, answered.place first⟩

theorem same_version (run : Run (service digest inputs) start world) {first last : Nat} {one two : UpsertMemberBudgetResult}
    (returned : Returned world first one) (returned' : Returned world last two) (fresh : one.replayed = false)
    (fresh' : two.replayed = false) (tenantId : (inputs first).tenantId = (inputs last).tenantId)
    (userId : (inputs first).userId = (inputs last).userId)
    (version : (inputs first).expectedVersion = (inputs last).expectedVersion) : first = last := by
  obtain ⟨done, rest, same, length⟩ := (success run returned fresh).2
  obtain ⟨done', rest', same', length'⟩ := (success run returned' fresh').2
  have audit : one.audit = two.audit := by
    rw [tenantId, userId, same'] at same
    have sizes : done'.length = done.length := by omega
    exact (List.cons.inj (List.append_inj same sizes).2).1.symm
  obtain ⟨left, mine⟩ := answered run returned
  obtain ⟨right, other⟩ := answered run returned'
  have entry : left.entry = right.entry := mine.returned.trans (audit.trans other.returned.symm)
  have row : left = right := same_row (holds run).invariant mine.stored other.stored
    (congrArg MemberBudgetAuditEntry.tenantId entry) (congrArg MemberBudgetAuditEntry.idempotencyKey entry)
  rw [← mine.writer fresh, ← other.writer fresh', row]

theorem same_key (distinct : Function.Injective digest) (run : Run (service digest inputs) start world) {first last : Nat}
    {one two : UpsertMemberBudgetResult} (returned : Returned world first one) (returned' : Returned world last two)
    (tenantId : (inputs first).tenantId = (inputs last).tenantId)
    (key : (inputs first).idempotencyKey = (inputs last).idempotencyKey) :
    one.audit = two.audit ∧ (inputs first).fields = (inputs last).fields := by
  obtain ⟨left, mine⟩ := answered run returned
  obtain ⟨right, other⟩ := answered run returned'
  have row : left = right := by
    apply same_row (holds run).invariant mine.stored other.stored
    · rw [mine.tenantId, tenantId, other.tenantId]
    · rw [mine.key, key, other.key]
  subst row
  exact ⟨mine.returned.symm.trans other.returned, distinct (mine.fingerprint.symm.trans other.fingerprint)⟩

theorem unwritten (run : Run (service digest inputs) start world) {index : Nat}
    {value : Except BudgetError UpsertMemberBudgetResult} (finished : world.calls[index]? = some (.finished value))
    (replays : ∀ result, value = .ok result → result.replayed) : written index world.db = [] := by
  have own : Wrote value (written index world.db) := (wrote run).fits finished
  cases value with
  | ok result =>
    have wrote : if result.replayed = true then _ else _ := own
    rwa [if_pos (replays result rfl)] at wrote
  | error => exact own

theorem repeats (run : Run (service digest inputs) start world) (more : Run (service digest inputs) world final) :
    Repeats inputs world final := by
  intro first result returned index value fresh finished tenantId key fields
  obtain ⟨row, mine⟩ := answered run returned
  let post (index : Nat) (value : Except BudgetError UpsertMemberBudgetResult) (_ : Budgets δ) : Prop :=
    world.calls.length ≤ index → (inputs index).tenantId = (inputs first).tenantId →
    (inputs index).idempotencyKey = (inputs first).idempotencyKey → (inputs index).fields = (inputs first).fields →
    ∃ budget, value = .ok ⟨budget, row.entry, true⟩
  have lasts : ∀ {a b : Budgets δ}, (rules δ).grows a b → row ∈ a.audit → row ∈ b.audit := fun grows => (grows.subset ·)
  have covered : ((rules δ).adding (row ∈ ·.audit)).Covers (service digest inputs) post := by
    refine ⟨fun _ => trivial, ?_, fun _ _ kept => kept⟩
    intro index program db admitted _
    obtain rfl := admitted
    by_cases repeated : (inputs index).tenantId = (inputs first).tenantId ∧
        (inputs index).idempotencyKey = (inputs first).idempotencyKey ∧ (inputs index).fields = (inputs first).fields
    · have safe : ((rules δ).adding (row ∈ ·.audit)).Safe (fun value _ _ => ∃ budget, value = .ok ⟨budget, row.entry, true⟩)
          (upsertMemberBudget digest index (inputs index)) .closed db :=
        repeated_safe (mine.tenantId.trans repeated.1.symm) (mine.key.trans repeated.2.1.symm)
          (mine.fingerprint.trans (congrArg digest repeated.2.2.symm))
      exact safe.weaken fun value _ _ _ replayed _ _ _ _ => replayed
    · have safe : (rules δ).Safe (fun value _ => Post digest index (inputs index) value)
        (upsertMemberBudget digest index (inputs index)) .closed db := upsertMemberBudget_safe
      exact (safe.adding lasts).weaken fun _ _ _ _ _ _ one two three => absurd ⟨one, two, three⟩ repeated
  have now : ((rules δ).adding (row ∈ ·.audit)).Holds post world :=
    (holds run).adding lasts mine.stored fun _ _ _ inside _ _ late => absurd inside (Nat.not_lt.mpr late)
  obtain ⟨budget, rfl⟩ := (now.run covered more).1.fits finished fresh tenantId key fields
  rw [← mine.returned]
  refine ⟨⟨budget, rfl⟩, unwritten (run.trans more) finished fun _ same => ?_⟩
  cases same
  rfl

/-- Whatever the order of the calls. The fingerprint is a hash, which is taken to be free of
collisions. -/
theorem one_chain (digest : RequestFields → δ) (distinct : Function.Injective digest)
    (inputs : Nat → UpsertMemberBudgetInput) {world : Calls δ} (run : Run (service digest inputs) start world) :
    OneChain inputs world ∧ ∀ final, Run (service digest inputs) world final → Repeats inputs world final := by
  have valid : Projected world.db := (holds run).invariant
  refine ⟨⟨?_, ?_, ?_, ?_, ?_, ?_, ?_⟩, fun _ => repeats run⟩
  · intro tenantId userId
    rw [valid.rows, version_rowOf]
  · intro tenantId userId
    rw [valid.rows, values_rowOf]
  · intro tenantId userId done entry rest same
    rw [valid.chained _ _ _ _ _ same, values_rowOf]
  · exact fun _ _ => success run
  · exact fun _ _ _ _ => same_version run
  · exact fun _ _ _ _ => same_key distinct run
  · exact fun _ _ => unwritten run

def raised : UpsertMemberBudgetInput where
  tenantId := "acme"
  userId := "li"
  monthlyLimitCreditsMicro := some 5000000
  enforcementMode := some .stopNewRuns
  perRunLimitCreditsMicro := none
  expectedVersion := 0
  idempotencyKey := "budget-1"
  note := "raise"
  actorUserId := "u-1"
  actorUsername := "admin"
  now := 1785513600000

def raisedByAnother : UpsertMemberBudgetInput :=
  { raised with expectedVersion := 7, actorUserId := "u-2", actorUsername := "other" }

def outside : Outside := ⟨"a-1", ⟨none, fun _ => none, fun _ => none, [], [], fun _ _ _ => none⟩⟩

abbrev plain (inputs : Nat → UpsertMemberBudgetInput) :
    System (Budgets RequestFields) Lock Outside (Except BudgetError UpsertMemberBudgetResult) := service id inputs

/-- The next call, from its start to its answer. -/
def call (inputs : Nat → UpsertMemberBudgetInput) (index steps : Nat) (world : Calls RequestFields) : Option (Calls RequestFields) :=
  ({ world with calls := world.calls ++ [.running .closed (upsertMemberBudget id index (inputs index))] } : Calls RequestFields).play
    (fun _ _ _ => true) (List.replicate steps (index, outside))

theorem run_of_call {inputs : Nat → UpsertMemberBudgetInput} {index steps : Nat} {world final : Calls RequestFields}
    (next : world.calls.length = index) (called : call inputs index steps world = some final) : Run (plain inputs) world final := by
  subst next
  exact .head (.start rfl) (run_of_play (fun _ _ _ _ _ => trivial) called)

theorem chain_of_retry : ∃ world final : Calls RequestFields, Run (plain fun _ => raised) start world ∧
    Run (plain fun _ => raised) world final ∧ world.db.audit.length = 1 ∧ final.calls.length = 2 ∧
    OneChain (fun _ => raised) world ∧ Repeats (fun _ => raised) world final := by
  obtain ⟨world, called⟩ : ∃ world, call (fun _ => raised) 0 12 start = some world := ⟨_, rfl⟩
  obtain ⟨final, retried⟩ : ∃ final, call (fun _ => raised) 1 8 world = some final := by
    cases called
    exact ⟨_, rfl⟩
  have run : Run (plain fun _ => raised) start world := run_of_call rfl called
  have next : world.calls.length = 1 := by
    cases called
    rfl
  have more : Run (plain fun _ => raised) world final := run_of_call next retried
  obtain ⟨chain, repeats⟩ := one_chain id Function.injective_id (fun _ => raised) run
  refine ⟨world, final, run, more, ?_, ?_, chain, repeats final more⟩
  · cases called
    rfl
  · cases called
    cases retried
    rfl

def twoAdministrators : Nat → UpsertMemberBudgetInput
  | 0 => raised
  | _ + 1 => raisedByAnother

/-- The expected version and the actor are no part of what a key stands for. -/
theorem other_parameters_replayed : ¬ ∀ (inputs : Nat → UpsertMemberBudgetInput) (world : Calls RequestFields),
    Run (plain inputs) start world → ∀ first last one two, Returned world first one → Returned world last two →
    (inputs first).tenantId = (inputs last).tenantId → (inputs first).idempotencyKey = (inputs last).idempotencyKey →
    inputs first = inputs last := by
  intro claimed
  obtain ⟨world, called⟩ : ∃ world, call twoAdministrators 0 12 start = some world := ⟨_, rfl⟩
  obtain ⟨final, repeated⟩ : ∃ final, call twoAdministrators 1 8 world = some final := by
    cases called
    exact ⟨_, rfl⟩
  have next : world.calls.length = 1 := by
    cases called
    rfl
  have run : Run (plain twoAdministrators) start final := (run_of_call rfl called).trans (run_of_call next repeated)
  obtain ⟨one, returned⟩ : ∃ one, Returned final 0 one := by
    cases called
    cases repeated
    exact ⟨_, rfl⟩
  obtain ⟨two, returned'⟩ : ∃ two, Returned final 1 two := by
    cases called
    cases repeated
    exact ⟨_, rfl⟩
  have same : raised = raisedByAnother := claimed twoAdministrators final run 0 1 one two returned returned' rfl rfl
  exact absurd (congrArg UpsertMemberBudgetInput.expectedVersion same) (by decide)

end AgentSaas.Proofs.MemberBudgets
