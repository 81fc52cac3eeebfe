import AgentSaas.Interleaving
import Mathlib.Algebra.Order.Ring.Int
import Mathlib.Logic.Function.Basic

/-! The single writer of a session. A lease is a row of one of two tables: workers in dual mode
write the older one, whose trigger looks at the other, and workers in lease mode look at the
older one in the statement that acquires their lease. The clock is that of the database. -/

namespace AgentSaas.SessionLock
open AgentSaas.Interleaving

inductive PgSessionLockMode
  | dual | lease
  deriving DecidableEq

def defaultLeaseMs : Int := 120000

def minLeaseMs : Int := 10000

structure PgSessionLock where
  mode : PgSessionLockMode
  leaseMs : Int
  least : minLeaseMs ≤ leaseMs
  deriving DecidableEq

def PgSessionLock.ofOptions (mode : Option PgSessionLockMode) (leaseMs : Option Int) : PgSessionLock :=
  ⟨mode.getD .dual, max minLeaseMs (leaseMs.getD defaultLeaseMs), le_max_left _ _⟩

structure LeaseKey where
  tenantId : String
  sessionId : String
  deriving DecidableEq

structure LeaseRow where
  tenantId : String
  ownerToken : String
  leaseExpiresAt : Int
  deriving DecidableEq

/-- `lease_expires_at > clock_timestamp()` -/
def LeaseRow.unexpired (row : LeaseRow) (clock : Int) : Bool := clock < row.leaseExpiresAt

/-- `tenant_id = ... AND lease_expires_at > clock_timestamp()` -/
def LeaseRow.blocks (row : LeaseRow) (tenantId : String) (clock : Int) : Bool :=
  row.tenantId = tenantId && row.unexpired clock

structure PgSessionLockHandle where
  lock : PgSessionLock
  tenantId : String
  sessionId : String
  ownerToken : String
  deriving DecidableEq

namespace PgSessionLockHandle

variable (handle : PgSessionLockHandle)

def leaseKey : LeaseKey := ⟨handle.tenantId, handle.sessionId⟩

def leaseRow (leaseExpiresAt : Int) : LeaseRow := ⟨handle.tenantId, handle.ownerToken, leaseExpiresAt⟩

/-- `tenant_id = $1 AND owner_token = $3` -/
def matchesRow (row : LeaseRow) : Bool := row.tenantId = handle.tenantId && row.ownerToken = handle.ownerToken

end PgSessionLockHandle

/-- A renewal or a deletion, and the row as it was before. -/
structure Change where
  handle : PgSessionLockHandle
  row : LeaseRow

/-- The older table is unique on the session. A guard is the advisory lock of a transaction, and
a legacy lock the one of a connection. The last three fields are kept for the record. -/
structure Shared where
  clock : Int
  leases : String → Option LeaseRow
  tenantLeases : LeaseKey → Option LeaseRow
  guards : LeaseKey → Bool
  legacyLocks : Int → Option String
  issued : List String
  handles : List PgSessionLockHandle
  changes : List Change

/-- What the trigger of the older table is asked about. -/
inductive Write
  | insert (leaseExpiresAt : Int)
  | takeOver (old : LeaseRow) (leaseExpiresAt : Int)
  | renew (leaseExpiresAt : Int)

/-- Where a statement is. The first three stages insert into the tenants' table and hold the
older table's row of the statement's snapshot. The trigger enters, takes a snapshot of its own
and judges it. -/
inductive Stage
  | guarding (legacy : Option LeaseRow)
  | testing (legacy : Option LeaseRow)
  | upserting (leaseExpiresAt : Int)
  | selecting
  | conflicting (leaseExpiresAt : Int)
  | entering (write : Write)
  | looking (write : Write)
  | judging (write : Write) (seen : Option LeaseRow)
  | writing (write : Write)
  | renewing
  | extending (leaseExpiresAt : Int)
  | releasing
  | unlocking

inductive Call
  | tryAcquire (lock : PgSessionLock) (tenantId sessionId : String)
  | statement (handle : PgSessionLockHandle) (stage : Stage)
  | tick (milliseconds : Nat)
  /-- A connection is lost, and the lock that it holds. -/
  | disconnect (key : Int)

inductive Move
  | next (ownerToken : String)
  | fail

namespace Stage

def holdsGuard : Stage → Bool
  | .testing _ | .upserting _ | .conflicting _ | .looking _ | .judging .. | .writing _ => true
  | .guarding _ | .selecting | .entering _ | .renewing | .extending _ | .releasing | .unlocking => false

/-- What follows a statement that changes no row, and a release in any case. An acquisition in dual
mode and a release have a legacy lock to give back. -/
def failed (handle : PgSessionLockHandle) : Stage → Option Call
  | .selecting | .conflicting _ => some (.statement handle .unlocking)
  | .entering write | .looking write | .judging write _ | .writing write =>
    match write with
    | .insert _ | .takeOver .. => some (.statement handle .unlocking)
    | .renew _ => none
  | .releasing =>
    match handle.lock.mode with
    | .dual => some (.statement handle .unlocking)
    | .lease => none
  | .guarding _ | .testing _ | .upserting _ | .renewing | .extending _ | .unlocking => none

end Stage

namespace Shared

variable (shared : Shared)

def row (mode : PgSessionLockMode) (key : LeaseKey) : Option LeaseRow :=
  match mode with
  | .dual => shared.leases key.sessionId
  | .lease => shared.tenantLeases key

def setRow (mode : PgSessionLockMode) (key : LeaseKey) (row : Option LeaseRow) : Shared :=
  match mode with
  | .dual => { shared with leases := Function.update shared.leases key.sessionId row }
  | .lease => { shared with tenantLeases := Function.update shared.tenantLeases key row }

def setGuard (key : LeaseKey) (held : Bool) : Shared :=
  { shared with guards := Function.update shared.guards key held }

variable (handle : PgSessionLockHandle)

/-- The row of an acquisition is committed, and the handle is made. -/
def acquire (mode : PgSessionLockMode) (leaseExpiresAt : Int) : Shared :=
  { shared.setRow mode handle.leaseKey (some (handle.leaseRow leaseExpiresAt)) with
    handles := shared.handles ++ [handle] }

/-- `UPDATE` and `DELETE ... WHERE tenant_id = $1 AND session_id = $2 AND owner_token = $3` -/
def change (mode : PgSessionLockMode) (next : LeaseRow → Option LeaseRow) : Shared :=
  match (shared.row mode handle.leaseKey).filter handle.matchesRow with
  | some row =>
    { shared.setRow mode handle.leaseKey (next row) with changes := shared.changes ++ [⟨handle, row⟩] }
  | none => shared

def renewRow (mode : PgSessionLockMode) (leaseExpiresAt : Int) : Shared :=
  shared.change handle mode fun row => some { row with leaseExpiresAt }

/-- A statement that changes no row, or fails: its transaction is over. -/
def fail (stage : Stage) : Shared × Option Call :=
  (if stage.holdsGuard then shared.setGuard handle.leaseKey false else shared, stage.failed handle)

def leaseExpiresAt : Int := shared.clock + handle.lock.leaseMs

def goOn (stage : Stage) : Shared × Option Call := (shared, some (.statement handle stage))

/-- The statements of `tryAcquire` and of the handle, with the trigger. The trigger answers a busy
guard with no row, or with an error where a renewal asks. A statement that takes a row over has
the guard already. -/
def act (lockKey : String → Int) (stage : Stage) : Shared × Option Call :=
  match stage with
  | .guarding legacy =>
    if shared.guards handle.leaseKey then shared.fail handle stage
    else (shared.setGuard handle.leaseKey true).goOn handle (.testing legacy)
  | .testing legacy =>
    if legacy.any (·.blocks handle.tenantId shared.clock) then shared.fail handle stage
    else shared.goOn handle (.upserting (shared.leaseExpiresAt handle))
  | .upserting leaseExpiresAt =>
    if (shared.tenantLeases handle.leaseKey).any (·.unexpired shared.clock) then shared.fail handle stage
    else ((shared.acquire handle .lease leaseExpiresAt).setGuard handle.leaseKey false, none)
  | .selecting => shared.goOn handle (.entering (.insert (shared.leaseExpiresAt handle)))
  | .conflicting leaseExpiresAt =>
    match shared.leases handle.sessionId with
    | none => shared.goOn handle (.writing (.insert leaseExpiresAt))
    | some old =>
      if old.unexpired shared.clock then shared.fail handle stage
      else shared.goOn handle (.looking (.takeOver old leaseExpiresAt))
  | .entering write =>
    if shared.guards handle.leaseKey then shared.fail handle stage
    else (shared.setGuard handle.leaseKey true).goOn handle (.looking write)
  | .looking write => shared.goOn handle (.judging write (shared.tenantLeases handle.leaseKey))
  | .judging write seen =>
    if seen.any (·.blocks handle.tenantId shared.clock) then shared.fail handle stage
    else
      match write with
      | .insert leaseExpiresAt => shared.goOn handle (.conflicting leaseExpiresAt)
      | .takeOver .. | .renew _ => shared.goOn handle (.writing write)
  | .writing (.insert leaseExpiresAt) =>
    if (shared.leases handle.sessionId).isSome then shared.goOn handle (.conflicting leaseExpiresAt)
    else ((shared.acquire handle .dual leaseExpiresAt).setGuard handle.leaseKey false, none)
  | .writing (.takeOver old leaseExpiresAt) =>
    if shared.leases handle.sessionId = some old then
      ((shared.acquire handle .dual leaseExpiresAt).setGuard handle.leaseKey false, none)
    else shared.goOn handle (.conflicting leaseExpiresAt)
  | .writing (.renew leaseExpiresAt) =>
    ((shared.renewRow handle .dual leaseExpiresAt).setGuard handle.leaseKey false, none)
  | .renewing =>
    match (shared.row handle.lock.mode handle.leaseKey).filter handle.matchesRow with
    | none => shared.fail handle stage
    | some row =>
      if row.unexpired shared.clock then
        match handle.lock.mode with
        | .dual => shared.goOn handle (.entering (.renew (shared.leaseExpiresAt handle)))
        | .lease => shared.goOn handle (.extending (shared.leaseExpiresAt handle))
      else shared.fail handle stage
  | .extending leaseExpiresAt => (shared.renewRow handle .lease leaseExpiresAt, none)
  | .releasing => (shared.change handle handle.lock.mode fun _ => none, stage.failed handle)
  | .unlocking =>
    if shared.legacyLocks (lockKey handle.sessionId) = some handle.ownerToken then
      ({ shared with legacyLocks := Function.update shared.legacyLocks (lockKey handle.sessionId) none }, none)
    else (shared, none)

/-- `tryAcquire` up to the start of its statement. -/
def tryAcquire (lockKey : String → Int) : Shared × Option Call :=
  if handle.tenantId.isEmpty || handle.sessionId.isEmpty then (shared, none)
  else
    let shared := { shared with issued := shared.issued ++ [handle.ownerToken] }
    match handle.lock.mode with
    | .lease => shared.goOn handle (.guarding (shared.leases handle.sessionId))
    | .dual =>
      if (shared.legacyLocks (lockKey handle.sessionId)).isSome then (shared, none)
      else
        { shared with
          legacyLocks := Function.update shared.legacyLocks (lockKey handle.sessionId) (some handle.ownerToken)
        }.goOn handle .selecting

/-- No lease, and no handle. -/
def initial (clock : Int) : Shared :=
  ⟨clock, fun _ => none, fun _ => none, fun _ => false, fun _ => none, [], [], []⟩

end Shared

def advance (lockKey : String → Int) (shared : Shared) (call : Call) (move : Move) : Option (Shared × Option Call) :=
  match call, move with
  | .tryAcquire lock tenantId sessionId, .next ownerToken =>
    some (shared.tryAcquire ⟨lock, tenantId, sessionId, ownerToken⟩ lockKey)
  | .statement handle stage, .next _ => some (shared.act handle lockKey stage)
  | .statement handle stage, .fail => some (shared.fail handle stage)
  | .tick milliseconds, .next _ => some ({ shared with clock := shared.clock + milliseconds }, none)
  | .disconnect key, .next _ => some ({ shared with legacyLocks := Function.update shared.legacyLocks key none }, none)
  | _, .fail => none

/-- Only a handle renews or releases. -/
def starts (shared : Shared) : Call → Prop
  | .statement handle stage =>
    match stage with
    | .renewing | .releasing => handle ∈ shared.handles
    | _ => False
  | .tryAcquire .. | .tick _ | .disconnect _ => True

/-- `randomUUID` -/
def fresh (shared : Shared) : Call → Move → Prop
  | .tryAcquire .., .next ownerToken => ownerToken ∉ shared.issued
  | _, _ => True

instance (shared : Shared) (call : Call) : Decidable (starts shared call) := by
  unfold starts
  split
  · split <;> infer_instance
  all_goals infer_instance

instance (shared : Shared) (call : Call) (move : Move) : Decidable (fresh shared call move) := by
  unfold fresh
  split <;> infer_instance

def workers (lockKey : String → Int) (permits : Shared → Call → Move → Prop) : System Shared Call Move :=
  ⟨starts, fun shared call move => fresh shared call move ∧ permits shared call move, advance lockKey⟩

end AgentSaas.SessionLock
