import AgentSaas.AppServer.Events
import AgentSaas.OneTimeCodes
import AgentSaas.PlatformEvents

/-! The local login for when the platform is down. Every call reads whole rows, works on its
copies and writes whole rows back; each of its awaits is a step here. -/

namespace AgentSaas.AppServer.BreakGlass
open Events Interleaving OneTimeCodes

def recoveryCodeCount : Nat := 8

def employeeCodeTtlSeconds : Int := 15 * 60

def maxFailedAttempts : Nat := 5

def lockoutMs : Int := 30 * 60 * 1000

def enableRateLimitMax : Nat := 5

def enableRateLimitWindowMs : Int := 60 * 1000

def breakGlassSessionSeconds : Int := 4 * 60 * 60

def localTokenMaxTtlSeconds : Int := 4 * 60 * 60

structure Crypto where
  sha256 : String → String
  /-- The password and the salt. -/
  argon2Hash : String → String → String
  argon2Verify : String → String → Bool

structure RecoveryCodeEntry where
  hash : String
  usedAt : Option Int
  deriving DecidableEq

/-- The set-ups of records and the issues of codes are numbered, for the record. -/
structure RecoveryRecord where
  passwordHash : String
  codes : List RecoveryCodeEntry
  failedAttempts : Nat
  lockedUntil : Option Int
  serial : Nat
  deriving DecidableEq

structure EmployeeCodeEntry where
  sub : String
  hash : String
  expiresAt : Int
  usedAt : Option Int
  failedAttempts : Nat
  lockedUntil : Option Int
  serial : Nat
  deriving DecidableEq

structure BreakGlassSession where
  enabledBy : String
  enabledAt : Int
  expiresAt : Int
  deriving DecidableEq

inductive LocalAct
  | localAdmin | localUser
  deriving DecidableEq

/-- The claims of a local token that matter here, its expiry in milliseconds as the result of the
call says it, and the number of sessions stored when the call began. -/
structure LocalToken where
  sub : String
  act : LocalAct
  exp : Int
  expiresAt : Int
  since : Nat
  deriving DecidableEq

inductive Key
  | record (sub : String)
  | code (loginId : String)
  deriving DecidableEq

/-- The tables of secrets; and for the record the tallies and the codes that were redeemed. -/
structure Codes where
  records : String → Option RecoveryRecord
  employeeCodes : String → Option EmployeeCodeEntry
  tally : Key → Tally
  serial : Nat
  attempts : Nat
  redeemed : List (Nat × Nat)

/-- A session that left the table. -/
structure Removal where
  session : BreakGlassSession
  clock : Int
  disabled : Bool
  deriving DecidableEq

/-- The table of the session; and for the record whether a `disable` has removed it since the last
`enable`, all sessions stored and removed, and the tokens. -/
structure Mode where
  session : Option BreakGlassSession
  closed : Bool
  stored : List BreakGlassSession
  removed : List Removal
  tokens : List LocalToken

structure Shared where
  clock : Int
  hits : String → List Int
  codes : Codes
  mode : Mode

namespace Codes

variable (codes : Codes)

def setTally (key : Key) (tally : Tally) : Codes := { codes with tally := Function.update codes.tally key tally }

/-- An attempt has failed that is not written down yet. -/
def evaluate (key : Key) (clock : Int) : Codes :=
  { codes.setTally key ((codes.tally key).fail clock codes.attempts) with attempts := codes.attempts + 1 }

def putRecord (sub : String) (record : RecoveryRecord) : Codes :=
  { codes with records := Function.update codes.records sub (some record) }

def putCode (loginId : String) (entry : EmployeeCodeEntry) : Codes :=
  { codes with employeeCodes := Function.update codes.employeeCodes loginId (some entry) }

def redeem (key : Key) (serial index : Nat) : Codes :=
  { codes.setTally key .reset with redeemed := codes.redeemed ++ [(serial, index)] }

def issue (key : Key) : Codes := { codes.setTally key .reset with serial := codes.serial + 1 }

end Codes

namespace Shared

variable (shared : Shared)

def setCodes (codes : Codes) : Shared := { shared with codes }

def setMode (mode : Mode) : Shared := { shared with mode }

def storeSession (session : BreakGlassSession) (enabled : Bool) : Shared :=
  shared.setMode { shared.mode with
    session := some session
    closed := shared.mode.closed && !enabled
    stored := shared.mode.stored ++ [session] }

/-- `saveSession(null)` -/
def removeSession (disabled : Bool) : Shared :=
  shared.setMode { shared.mode with
    session := none
    closed := shared.mode.closed || disabled
    removed := shared.mode.removed ++ (shared.mode.session.map fun session => ⟨session, shared.clock, disabled⟩).toList }

/-- The number of the session stored now, or of the next one. -/
def since : Nat := if shared.mode.session.isSome then shared.mode.stored.length - 1 else shared.mode.stored.length

/-- `limiter.check` -/
def check (ip : String) : Shared × Bool :=
  let recent := (shared.hits ip).filter fun hit => shared.clock - hit < enableRateLimitWindowMs
  if enableRateLimitMax ≤ recent.length then ({ shared with hits := Function.update shared.hits ip recent }, false)
  else ({ shared with hits := Function.update shared.hits ip (recent ++ [shared.clock]) }, true)

/-- `signToken`, up to the signature. -/
def signToken (sub : String) (act : LocalAct) (sessionExpiresAt : Int) (since : Nat) : Shared :=
  let ttlSeconds := max 1 ((sessionExpiresAt - shared.clock) / 1000)
  let exp := shared.clock / 1000 + min ttlSeconds localTokenMaxTtlSeconds
  shared.setMode { shared.mode with
    tokens := shared.mode.tokens ++ [⟨sub, act, exp, shared.clock + ttlSeconds * 1000, since⟩] }

end Shared

/-! The two kinds of secrets. -/

def locked (lockedUntil : Option Int) (nowMs : Int) : Bool := lockedUntil.any (nowMs < ·)

namespace RecoveryRecord

variable (record : RecoveryRecord)

def unlocked (nowMs : Int) : RecoveryRecord :=
  if record.lockedUntil.any (· ≤ nowMs) then { record with lockedUntil := none, failedAttempts := 0 } else record

/-- `lockAndAudit`, before it saves the record. -/
def fail (now : Int) : RecoveryRecord :=
  if maxFailedAttempts ≤ record.failedAttempts + 1 then
    { record with failedAttempts := 0, lockedUntil := some (now + lockoutMs) }
  else { record with failedAttempts := record.failedAttempts + 1 }

def codeEntry (crypto : Crypto) (password code : String) : Option Nat :=
  if crypto.argon2Verify record.passwordHash password then
    record.codes.findIdx? fun entry => entry.usedAt = none && entry.hash = crypto.sha256 code
  else none

def use (index : Nat) (nowMs : Int) : RecoveryRecord :=
  { record with
    codes := record.codes.modify index fun entry => { entry with usedAt := some nowMs }
    failedAttempts := 0
    lockedUntil := none }

def setup (crypto : Crypto) (password : String) (codes : List String) (salt : String) : RecoveryRecord :=
  ⟨crypto.argon2Hash password salt, codes.map fun code => ⟨crypto.sha256 code, none⟩, 0, none, 0⟩

end RecoveryRecord

namespace EmployeeCodeEntry

variable (entry : EmployeeCodeEntry)

def fail (nowMs : Int) : EmployeeCodeEntry :=
  if maxFailedAttempts ≤ entry.failedAttempts + 1 then
    { entry with failedAttempts := 0, lockedUntil := some (nowMs + lockoutMs) }
  else { entry with failedAttempts := entry.failedAttempts + 1 }

def opens (crypto : Crypto) (code : String) (nowMs : Int) : Bool :=
  nowMs < entry.expiresAt && entry.usedAt = none && entry.hash = crypto.sha256 code

def use (nowMs : Int) : EmployeeCodeEntry := { entry with usedAt := some nowMs, failedAttempts := 0 }

end EmployeeCodeEntry

def newLock (failedAttempts : Nat) (now : Int) : Option Int :=
  if maxFailedAttempts ≤ failedAttempts + 1 then some (now + lockoutMs) else none

inductive Goal
  | session
  | setup (sub password : String)
  | renew
  | issue (loginId sub : String)
  | login (loginId code : String)

inductive Call
  | current (goal : Goal)
  /-- `currentSession` has read the session. -/
  | checking (goal : Goal) (read : Option BreakGlassSession) (since : Nat)
  /-- It had expired, and is removed. -/
  | expired (goal : Goal)
  | hashing (sub password : String)
  | savingSetup (sub : String) (record : RecoveryRecord)
  | enable (sub password code : String) (ip : Option String)
  | readingRecord (sub password code : String) (nowMs : Int) (since : Nat)
  | verifying (sub password code : String) (nowMs : Int) (since : Nat) (read : RecoveryRecord)
  | savingFailure (sub : String) (now : Int) (nowMs : Int) (attempt : Nat) (read : RecoveryRecord)
  | savingUse (sub : String) (index : Nat) (nowMs : Int) (since : Nat) (read : RecoveryRecord)
  | savingSession (sub : String) (nowMs : Int) (since : Nat)
  /-- The audit's insertion, before the token is signed. -/
  | auditing (sub : String) (act : LocalAct) (sessionExpiresAt : Int) (since : Nat)
  | renewing (read renewed : BreakGlassSession)
  | disable
  | disabling
  | issuing (loginId sub : String) (nowMs : Int)
  | readingCode (loginId code : String) (nowMs : Int) (session : BreakGlassSession) (since : Nat)
  | savingCodeFailure (loginId : String) (nowMs : Int) (attempt : Nat) (read : EmployeeCodeEntry)
  | savingCodeUse (loginId : String) (nowMs : Int) (session : BreakGlassSession) (since : Nat) (read : EmployeeCodeEntry)
  | tick (milliseconds : Nat)

/-- What a step gets from outside: the state of the installation, or random texts. -/
inductive Move
  | next
  | state (state : InstallationState)
  | draw (codes : List String) (salt : String)
  deriving DecidableEq

/-- How a call goes on with the session that `currentSession` returns. -/
def afterSession (shared : Shared) (goal : Goal) (session : Option BreakGlassSession) (since : Nat) : Option Call :=
  match goal, session with
  | .session, _ => none
  | .setup .., some _ => none
  | .setup sub password, none => if PlatformEvents.utf16Length password < 12 then none else some (.hashing sub password)
  | .renew, none | .issue .., none | .login .., none => none
  | .renew, some session =>
    some (.renewing session { session with expiresAt := shared.clock + breakGlassSessionSeconds * 1000 })
  | .issue loginId sub, some _ => some (.issuing loginId sub shared.clock)
  | .login loginId code, some session => some (.readingCode loginId code shared.clock session since)

/-- `currentSession` once the query has answered. -/
def checkSession (shared : Shared) (goal : Goal) (read : Option BreakGlassSession) (since : Nat) : Option Call :=
  match read with
  | some session =>
    if session.expiresAt ≤ shared.clock then some (.expired goal) else afterSession shared goal (some session) since
  | none => afterSession shared goal none since

/-- `enable` before its first await. -/
def enable (shared : Shared) (sub password code : String) (ip : Option String) (state : InstallationState) :
    Shared × Option Call :=
  if state ≠ .enabled then (shared, none)
  else
    let (shared, allowed) := ip.elim (shared, true) shared.check
    if allowed then (shared, some (.readingRecord sub password code shared.clock shared.since)) else (shared, none)

def readRecord (shared : Shared) (sub password code : String) (nowMs : Int) (since : Nat) : Option Call :=
  match shared.codes.records sub with
  | none => none
  | some record =>
    if locked record.lockedUntil nowMs then none else some (.verifying sub password code nowMs since record)

def verify (crypto : Crypto) (shared : Shared) (sub password code : String) (nowMs : Int) (since : Nat)
    (read : RecoveryRecord) : Shared × Option Call :=
  match (read.unlocked nowMs).codeEntry crypto password code with
  | some index => (shared, some (.savingUse sub index nowMs since read))
  | none =>
    (shared.setCodes (shared.codes.evaluate (.record sub) shared.clock),
      some (.savingFailure sub shared.clock nowMs shared.codes.attempts read))

def saveFailure (shared : Shared) (sub : String) (now nowMs : Int) (read : RecoveryRecord) : Shared :=
  let record := read.unlocked nowMs
  let key := Key.record sub
  shared.setCodes ((shared.codes.putRecord sub (record.fail now)).setTally key
    ((shared.codes.tally key).saved (newLock record.failedAttempts now)))

def saveUse (shared : Shared) (sub : String) (index : Nat) (nowMs : Int) (read : RecoveryRecord) : Shared :=
  shared.setCodes ((shared.codes.putRecord sub ((read.unlocked nowMs).use index nowMs)).redeem (.record sub)
    read.serial index)

def saveSetup (shared : Shared) (sub : String) (record : RecoveryRecord) : Shared :=
  shared.setCodes ((shared.codes.putRecord sub { record with serial := shared.codes.serial }).issue (.record sub))

def saveIssue (crypto : Crypto) (shared : Shared) (loginId sub code : String) (nowMs : Int) : Shared :=
  let entry : EmployeeCodeEntry :=
    ⟨sub, crypto.sha256 code, nowMs + employeeCodeTtlSeconds * 1000, none, 0, none, shared.codes.serial⟩
  shared.setCodes ((shared.codes.putCode loginId entry).issue (.code loginId))

/-- `login` once it has read the code. -/
def readCode (crypto : Crypto) (shared : Shared) (loginId code : String) (nowMs : Int) (session : BreakGlassSession)
    (since : Nat) : Shared × Option Call :=
  match shared.codes.employeeCodes loginId with
  | none => (shared, none)
  | some entry =>
    if locked entry.lockedUntil nowMs then (shared, none)
    else if entry.opens crypto code nowMs then (shared, some (.savingCodeUse loginId nowMs session since entry))
    else
      (shared.setCodes (shared.codes.evaluate (.code loginId) shared.clock),
        some (.savingCodeFailure loginId nowMs shared.codes.attempts entry))

def saveCodeFailure (shared : Shared) (loginId : String) (nowMs : Int) (read : EmployeeCodeEntry) : Shared :=
  let key := Key.code loginId
  shared.setCodes ((shared.codes.putCode loginId (read.fail nowMs)).setTally key
    ((shared.codes.tally key).saved (newLock read.failedAttempts nowMs)))

def saveCodeUse (shared : Shared) (loginId : String) (nowMs : Int) (read : EmployeeCodeEntry) : Shared :=
  shared.setCodes ((shared.codes.putCode loginId (read.use nowMs)).redeem (.code loginId) read.serial 0)

def advance (crypto : Crypto) (shared : Shared) (call : Call) (move : Move) : Option (Shared × Option Call) :=
  match call, move with
  | .current goal, .next => some (shared, some (.checking goal shared.mode.session shared.since))
  | .checking goal read since, .next => some (shared, checkSession shared goal read since)
  | .expired goal, .next => some (shared.removeSession false, afterSession shared goal none shared.since)
  | .hashing sub password, .draw codes salt =>
    if codes.length = recoveryCodeCount then
      some (shared, some (.savingSetup sub (.setup crypto password codes salt)))
    else none
  | .savingSetup sub record, .next => some (saveSetup shared sub record, none)
  | .enable sub password code ip, .state state => some (enable shared sub password code ip state)
  | .readingRecord sub password code nowMs since, .next => some (shared, readRecord shared sub password code nowMs since)
  | .verifying sub password code nowMs since read, .next => some (verify crypto shared sub password code nowMs since read)
  | .savingFailure sub now nowMs _ read, .next => some (saveFailure shared sub now nowMs read, none)
  | .savingUse sub index nowMs since read, .next =>
    some (saveUse shared sub index nowMs read, some (.savingSession sub nowMs since))
  | .savingSession sub nowMs since, .next =>
    let session : BreakGlassSession := ⟨sub, nowMs, nowMs + breakGlassSessionSeconds * 1000⟩
    some (shared.storeSession session true, some (.auditing sub .localAdmin session.expiresAt since))
  | .auditing sub act sessionExpiresAt since, .next => some (shared.signToken sub act sessionExpiresAt since, none)
  | .renewing _ renewed, .next => some (shared.storeSession renewed false, none)
  | .disable, .next => some (shared, some .disabling)
  | .disabling, .next => some (shared.removeSession true, none)
  | .issuing loginId sub nowMs, .draw [code] _ => some (saveIssue crypto shared loginId sub code nowMs, none)
  | .readingCode loginId code nowMs session since, .next =>
    some (readCode crypto shared loginId code nowMs session since)
  | .savingCodeFailure loginId nowMs _ read, .next => some (saveCodeFailure shared loginId nowMs read, none)
  | .savingCodeUse loginId nowMs session since read, .next =>
    some (saveCodeUse shared loginId nowMs read, some (.auditing read.sub .localUser session.expiresAt since))
  | .tick milliseconds, .next => some ({ shared with clock := shared.clock + milliseconds }, none)
  | _, _ => none

def starts (_ : Shared) : Call → Prop
  | .current _ | .enable .. | .disable | .tick _ => True
  | _ => False

instance (shared : Shared) (call : Call) : Decidable (starts shared call) := by
  unfold starts
  split <;> infer_instance

def service (crypto : Crypto) (permits : Shared → Call → Move → Prop) : System Shared Call Move :=
  ⟨starts, permits, advance crypto⟩

def Shared.initial (clock : Int) : Shared :=
  ⟨clock, fun _ => [], ⟨fun _ => none, fun _ => none, fun _ => .reset, 0, 0, []⟩, ⟨none, false, [], [], []⟩⟩

end AgentSaas.AppServer.BreakGlass
