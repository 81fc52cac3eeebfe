import AgentSaas.Billing.Allowance

/-! The budget row of a member: a new version and an audit entry for every change. -/

namespace AgentSaas.Billing.MemberBudgets
open Transactions Allowance

structure UpsertMemberBudgetInput where
  tenantId : String
  userId : String
  monthlyLimitCreditsMicro : Option Rat
  enforcementMode : Option EnforcementMode
  /-- `none` keeps the limit and `some none` clears it. -/
  perRunLimitCreditsMicro : Option (Option Rat)
  expectedVersion : Int
  idempotencyKey : String
  note : String
  actorUserId : String
  actorUsername : String
  /-- `input.now ?? new Date()` -/
  now : Int
  deriving DecidableEq, Repr

/-- `Math.max(0, Math.trunc(value))` -/
def limitOf (value : Rat) : Int := max 0 (mathTrunc value)

/-- What the fingerprint of a request is made of. -/
structure RequestFields where
  tenantId : String
  userId : String
  monthlyLimitCreditsMicro : Option Int
  enforcementMode : Option EnforcementMode
  perRunLimitCreditsMicro : Option (Option Rat)
  note : String
  deriving DecidableEq, Repr

def UpsertMemberBudgetInput.fields (input : UpsertMemberBudgetInput) : RequestFields where
  tenantId := input.tenantId
  userId := input.userId
  monthlyLimitCreditsMicro := input.monthlyLimitCreditsMicro.map limitOf
  enforcementMode := input.enforcementMode
  perRunLimitCreditsMicro := input.perRunLimitCreditsMicro
  note := input.note

structure MemberBudgetAuditEntry where
  id : String
  idempotencyKey : String
  tenantId : String
  userId : String
  beforeLimitCreditsMicro : Option Int
  afterLimitCreditsMicro : Option Int
  beforeEnforcementMode : EnforcementMode
  afterEnforcementMode : EnforcementMode
  beforePerRunLimitCreditsMicro : Option Int
  afterPerRunLimitCreditsMicro : Option Int
  beforeActive : Bool
  afterActive : Bool
  periodStart : BeijingMonth
  note : String
  actorUserId : String
  actorUsername : String
  createdAt : Int
  deriving DecidableEq, Repr

/-- The call that wrote the row is kept for the record. -/
structure AuditRow (δ : Type) where
  requestFingerprint : δ
  entry : MemberBudgetAuditEntry
  writer : Nat

structure Budgets (δ : Type) where
  memberBudgets : String → String → Option MemberBudget
  audit : List (AuditRow δ)

inductive Lock
  | member (text : String)
  | key (text : String)
  | budget (tenantId userId : String)
  | auditRow (id : String)
  | auditId (id : String)
  | auditKey (tenantId idempotencyKey : String)
  deriving DecidableEq, Repr

/-- What a call gets from `randomUUID()`, and the ledger that the overview finds. -/
structure Outside where
  uuid : String
  ledger : Database

abbrev Query (δ β : Type) := Statement (Budgets δ) Lock β

abbrev Session (δ α : Type) := Program (Budgets δ) Lock Outside α

inductive BudgetError
  | idempotencyConflict (message : String)
  | versionConflict (message : String)
  /-- A unique index refused the audit row. -/
  | uniqueViolation
  deriving DecidableEq, Repr

structure UpsertMemberBudgetResult where
  budget : MemberBudgetUsage
  audit : MemberBudgetAuditEntry
  replayed : Bool
  deriving DecidableEq, Repr

variable {δ : Type}

namespace Budgets

def empty : Budgets δ := ⟨fun _ _ => none, []⟩

def findAudit (db : Budgets δ) (tenantId idempotencyKey : String) : Option (AuditRow δ) :=
  db.audit.find? fun row => row.entry.tenantId == tenantId && row.entry.idempotencyKey == idempotencyKey

def setBudget (db : Budgets δ) (tenantId userId : String) (budget : MemberBudget) : Budgets δ :=
  { db with
    memberBudgets := Function.update db.memberBudgets tenantId
      (Function.update (db.memberBudgets tenantId) userId (some budget)) }

def appendAudit (db : Budgets δ) (row : AuditRow δ) : Budgets δ := { db with audit := db.audit ++ [row] }

/-- The primary key and the unique index of the audit. -/
def conflicts (db : Budgets δ) (entry : MemberBudgetAuditEntry) : Bool :=
  db.audit.any fun row => row.entry.id == entry.id ||
    (row.entry.tenantId == entry.tenantId && row.entry.idempotencyKey == entry.idempotencyKey)

end Budgets

/-- `pg_advisory_xact_lock` -/
def advisoryLock (key : Lock) : Query δ Unit := .lock (fun _ => [key]) fun _ => ()

/-- `SELECT ... FOR UPDATE`, which locks nothing when there is no row. -/
def selectAudit (tenantId idempotencyKey : String) : Query δ (Option (AuditRow δ)) :=
  .lock (fun db => ((db.findAudit tenantId idempotencyKey).map fun row => Lock.auditRow row.entry.id).toList)
    (·.findAudit tenantId idempotencyKey)

def selectBudget (tenantId userId : String) : Query δ (Option MemberBudget) :=
  .lock (fun db => ((db.memberBudgets tenantId userId).map fun _ => Lock.budget tenantId userId).toList)
    (·.memberBudgets tenantId userId)

/-- `DO UPDATE SET` leaves `created_by` and `created_at` of a row that is there. -/
def onConflict (row : MemberBudget) : Option MemberBudget → MemberBudget
  | none => row
  | some current => { row with createdBy := current.createdBy, createdAt := current.createdAt }

/-- `INSERT ... ON CONFLICT (tenant_id, user_id) DO UPDATE` -/
def upsertBudget (tenantId userId : String) (row : MemberBudget) : Query δ Unit where
  locks _ := [.budget tenantId userId]
  result _ := ()
  write _ db := db.setBudget tenantId userId (onConflict row (db.memberBudgets tenantId userId))

/-- The result is false when an index already holds one of the keys. -/
def insertAudit (row : AuditRow δ) : Query δ Bool where
  locks _ := [.auditId row.entry.id, .auditKey row.entry.tenantId row.entry.idempotencyKey]
  result db := !db.conflicts row.entry
  write snapshot db := if snapshot.conflicts row.entry then db else db.appendAudit row

/-- A current mode counts where the input has none, and so does a current limit of a run. -/
def nextMode (input : UpsertMemberBudgetInput) (current : Option MemberBudget) : EnforcementMode :=
  input.enforcementMode.getD ((current.map (·.enforcementMode)).getD .notify)

def nextPerRunLimit (input : UpsertMemberBudgetInput) (current : Option MemberBudget) : Option Int :=
  match input.perRunLimitCreditsMicro with
  | none => current.bind (·.perRunLimitCreditsMicro)
  | some limit => limit.map limitOf

def currentVersion (current : Option MemberBudget) : Int := (current.map (·.version)).getD 0

def nextBudget (input : UpsertMemberBudgetInput) (current : Option MemberBudget) : MemberBudget where
  monthlyLimitCreditsMicro := input.monthlyLimitCreditsMicro.map limitOf
  enforcementMode := nextMode input current
  perRunLimitCreditsMicro := nextPerRunLimit input current
  active := true
  version := currentVersion current + 1
  createdBy := (truthy (current.map (·.createdBy))).getD input.actorUsername
  createdAt := (current.map (·.createdAt)).getD input.now
  updatedBy := input.actorUsername
  updatedAt := input.now

def auditEntry (input : UpsertMemberBudgetInput) (current : Option MemberBudget) (id : String) : MemberBudgetAuditEntry where
  id
  idempotencyKey := input.idempotencyKey
  tenantId := input.tenantId
  userId := input.userId
  beforeLimitCreditsMicro := current.bind (·.monthlyLimitCreditsMicro)
  afterLimitCreditsMicro := input.monthlyLimitCreditsMicro.map limitOf
  beforeEnforcementMode := (current.map (·.enforcementMode)).getD .notify
  afterEnforcementMode := nextMode input current
  beforePerRunLimitCreditsMicro := current.bind (·.perRunLimitCreditsMicro)
  afterPerRunLimitCreditsMicro := nextPerRunLimit input current
  beforeActive := (current.map (·.active)).getD false
  afterActive := true
  periodStart := beijingMonth input.now
  note := input.note
  actorUserId := input.actorUserId
  actorUsername := input.actorUsername
  createdAt := input.now

def fallbackUsage (input : UpsertMemberBudgetInput) (current : Option MemberBudget) (replayed : Bool) : MemberBudgetUsage where
  userId := input.userId
  monthlyLimitCreditsMicro := input.monthlyLimitCreditsMicro.map limitOf
  enforcementMode := nextMode input current
  perRunLimitCreditsMicro := nextPerRunLimit input current
  active := true
  version := if replayed then input.expectedVersion else input.expectedVersion + 1
  monthUsedCreditsMicro := 0
  remainingCreditsMicro := none
  canStartRun := true
  lastUsedAt := none
  updatedBy := none
  updatedAt := none

/-- After the commit: the overview of the member. -/
def answer (input : UpsertMemberBudgetInput) (current : Option MemberBudget) (audit : MemberBudgetAuditEntry)
    (replayed : Bool) : Session δ (Except BudgetError UpsertMemberBudgetResult) := do
  let outside ← receive
  let item ← execute (.read fun db =>
    getMemberBudgetOverview outside.ledger db.memberBudgets input.tenantId input.userId input.now)
  return .ok ⟨item.getD (fallbackUsage input current replayed), audit, replayed⟩

/-- `ROLLBACK` and the error on its way out. -/
def abort (error : BudgetError) : Session δ (Except BudgetError UpsertMemberBudgetResult) := do
  rollback
  return .error error

/-- A key that was used already: no current row is read. -/
def replayAudit [DecidableEq δ] (digest : RequestFields → δ) (input : UpsertMemberBudgetInput) (row : AuditRow δ) :
    Session δ (Except BudgetError UpsertMemberBudgetResult) := do
  if row.requestFingerprint = digest input.fields then
    commit
    answer input none row.entry true
  else abort (.idempotencyConflict "幂等键已用于另一项预算修改")

def auditRow (digest : RequestFields → δ) (index : Nat) (input : UpsertMemberBudgetInput) (current : Option MemberBudget)
    (id : String) : AuditRow δ :=
  ⟨digest input.fields, auditEntry input current id, index⟩

def writeBudget (digest : RequestFields → δ) (index : Nat) (input : UpsertMemberBudgetInput)
    (current : Option MemberBudget) : Session δ (Except BudgetError UpsertMemberBudgetResult) := do
  query (upsertBudget input.tenantId input.userId (nextBudget input current))
  let outside ← receive
  let row := auditRow digest index input current outside.uuid
  let inserted ← query (insertAudit row)
  if inserted then
    commit
    answer input current row.entry false
  else abort .uniqueViolation

def changeBudget (digest : RequestFields → δ) (index : Nat) (input : UpsertMemberBudgetInput) :
    Session δ (Except BudgetError UpsertMemberBudgetResult) := do
  let current ← query (selectBudget input.tenantId input.userId)
  if currentVersion current = input.expectedVersion then writeBudget digest index input current
  else abort (.versionConflict "预算已被其他管理员修改，请刷新后重试")

def upsertMemberBudget [DecidableEq δ] (digest : RequestFields → δ) (index : Nat) (input : UpsertMemberBudgetInput) :
    Session δ (Except BudgetError UpsertMemberBudgetResult) := do
  query (advisoryLock (.member (input.tenantId ++ ":" ++ input.userId)))
  query (advisoryLock (.key (input.tenantId ++ ":" ++ input.idempotencyKey)))
  match ← query (selectAudit input.tenantId input.idempotencyKey) with
  | some row => replayAudit digest input row
  | none => changeBudget digest index input

/-- Any calls, whatever their inputs. -/
def service [DecidableEq δ] (digest : RequestFields → δ) (inputs : Nat → UpsertMemberBudgetInput) :
    System (Budgets δ) Lock Outside (Except BudgetError UpsertMemberBudgetResult) where
  admits index program := program = upsertMemberBudget digest index (inputs index)
  permits _ _ _ _ := True

end AgentSaas.Billing.MemberBudgets
