import AgentSaas.AppServer.BreakGlass
import AgentSaas.Proofs.InterleavingSafety

/-! When the codes of the local login open once and failed attempts are counted. A row is written
back as it was read, so nothing may be written to it between the two. -/

namespace AgentSaas.Proofs.RecoveryCodes
open AgentSaas.AppServer.BreakGlass Interleaving InterleavingSafety OneTimeCodes

variable {crypto : Crypto} {shared after : Shared}

def secretOfRecord (record : RecoveryRecord) : Secret :=
  ⟨record.serial, record.codes.map (·.usedAt.isSome), record.failedAttempts, record.lockedUntil⟩

def secretOfCode (entry : EmployeeCodeEntry) : Secret :=
  ⟨entry.serial, [entry.usedAt.isSome], entry.failedAttempts, entry.lockedUntil⟩

def secretAt (codes : Codes) : Key → Option Secret
  | .record sub => (codes.records sub).map secretOfRecord
  | .code loginId => (codes.employeeCodes loginId).map secretOfCode

def ledgerOf (codes : Codes) : Ledger Key := ⟨secretAt codes, codes.tally, codes.serial, codes.attempts, codes.redeemed⟩

/-- Every code opens once at most, stays used, and few attempts fail before one succeeds, the
secret is set anew or a lock ends. -/
structure OneTime (codes : Codes) : Prop where
  once : codes.redeemed.Nodup
  used : ∀ key secret index, secretAt codes key = some secret → (secret.serial, index) ∈ codes.redeemed →
    secret.used[index]? = some true
  failures : ∀ key, (codes.tally key).failures ≤ maxFailedAttempts

/-- A row is as it was read when it is written, and when an attempt fails none is left to write. -/
def Unchanged (crypto : Crypto) (shared : Shared) (call : Call) (_ : Move) : Prop :=
  match call with
  | .verifying sub password code nowMs _ read =>
    (read.unlocked nowMs).codeEntry crypto password code = none →
      shared.codes.records sub = some read ∧ (shared.codes.tally (.record sub)).waiting = none
  | .savingFailure sub _ _ _ read | .savingUse sub _ _ _ read => shared.codes.records sub = some read
  | .readingCode loginId code nowMs _ _ =>
    (shared.codes.employeeCodes loginId).any (fun entry => !locked entry.lockedUntil nowMs && !entry.opens crypto code nowMs) →
      (shared.codes.tally (.code loginId)).waiting = none
  | .savingCodeFailure loginId _ _ read | .savingCodeUse loginId _ _ _ read =>
    shared.codes.employeeCodes loginId = some read
  | _ => True

/-! What the operations on rows do to the ledger. -/

theorem secretAt_putRecord (codes : Codes) (sub : String) (record : RecoveryRecord) :
    secretAt (codes.putRecord sub record) =
      Function.update (secretAt codes) (.record sub) (some (secretOfRecord record)) := by
  funext key
  cases key with
  | record other =>
    by_cases same : other = sub
    · subst same
      simp [secretAt, Codes.putRecord]
    · rw [Function.update_of_ne (by simpa using same)]
      simp [secretAt, Codes.putRecord, same]
  | code loginId =>
    rw [Function.update_of_ne (by simp)]
    rfl

theorem secretAt_putCode (codes : Codes) (loginId : String) (entry : EmployeeCodeEntry) :
    secretAt (codes.putCode loginId entry) =
      Function.update (secretAt codes) (.code loginId) (some (secretOfCode entry)) := by
  funext key
  cases key with
  | record sub =>
    rw [Function.update_of_ne (by simp)]
    rfl
  | code other =>
    by_cases same : other = loginId
    · subst same
      simp [secretAt, Codes.putCode]
    · rw [Function.update_of_ne (by simpa using same)]
      simp [secretAt, Codes.putCode, same]

theorem stored_record {codes : Codes} {sub : String} {read : RecoveryRecord} (found : codes.records sub = some read) :
    (ledgerOf codes).secret (.record sub) = some (secretOfRecord read) := by
  change (codes.records sub).map secretOfRecord = _
  rw [found]
  rfl

theorem stored_code {codes : Codes} {loginId : String} {read : EmployeeCodeEntry}
    (found : codes.employeeCodes loginId = some read) :
    (ledgerOf codes).secret (.code loginId) = some (secretOfCode read) := by
  change (codes.employeeCodes loginId).map secretOfCode = _
  rw [found]
  rfl

/-- A record that is locked has no failed attempts. -/
def Settled (codes : Codes) : Prop :=
  ∀ sub record, codes.records sub = some record → record.lockedUntil ≠ none → record.failedAttempts = 0

theorem unlocked_eq {record : RecoveryRecord} {nowMs : Int} (settled : record.lockedUntil ≠ none → record.failedAttempts = 0)
    (open_ : locked record.lockedUntil nowMs = false) :
    record.unlocked nowMs = { record with lockedUntil := none } := by
  obtain ⟨hash, codes, failed, lock, serial⟩ := record
  cases lock with
  | none => simp [RecoveryRecord.unlocked]
  | some time =>
    have ended : time ≤ nowMs := by simpa [locked] using open_
    have none : failed = 0 := settled (by simp)
    simp [RecoveryRecord.unlocked, ended, none]

theorem codeEntry_unused {record : RecoveryRecord} {password code : String} {index : Nat}
    (found : record.codeEntry crypto password code = some index) : (secretOfRecord record).used[index]? = some false := by
  unfold RecoveryRecord.codeEntry at found
  split at found
  · obtain ⟨inside, passes, _⟩ := List.findIdx?_eq_some_iff_getElem.mp found
    change (record.codes.map _)[index]? = _
    rw [List.getElem?_map, List.getElem?_eq_getElem inside]
    simp only [Bool.and_eq_true, decide_eq_true_eq] at passes
    simp [passes.1]
  · cases found

theorem unlocked_used (record : RecoveryRecord) (nowMs : Int) :
    (secretOfRecord (record.unlocked nowMs)).used = (secretOfRecord record).used := by
  unfold RecoveryRecord.unlocked
  split <;> rfl

theorem unlocked_serial (record : RecoveryRecord) (nowMs : Int) : (record.unlocked nowMs).serial = record.serial := by
  unfold RecoveryRecord.unlocked
  split <;> rfl

theorem secret_use (record : RecoveryRecord) (index : Nat) (nowMs : Int) :
    secretOfRecord (record.use index nowMs) =
      { secretOfRecord record with
        used := (secretOfRecord record).used.set index true, failedAttempts := 0, lockedUntil := none } := by
  have used : (record.codes.modify index fun entry => { entry with usedAt := some nowMs }).map (·.usedAt.isSome) =
      (record.codes.map (·.usedAt.isSome)).set index true := by
    apply List.ext_getElem?
    intro place
    simp only [List.getElem?_map, List.getElem?_modify, List.getElem?_set, List.length_map]
    by_cases same : index = place
    · subst same
      cases found : record.codes[index]? with
      | none =>
        have outside := List.getElem?_eq_none_iff.mp found
        simp [Nat.not_lt.mpr outside]
      | some entry =>
        have inside := (List.getElem?_eq_some_iff.mp found).1
        simp [inside]
    · simp [same]
  simp only [secretOfRecord, RecoveryRecord.use, used]

theorem ledger_putRecord (codes : Codes) (sub : String) (record : RecoveryRecord) (tally : Tally) :
    ledgerOf ((codes.putRecord sub record).setTally (.record sub) tally) =
      (ledgerOf codes).put (.record sub) (secretOfRecord record) tally := by
  have same : secretAt ((codes.putRecord sub record).setTally (.record sub) tally) = secretAt (codes.putRecord sub record) := by
    funext key
    cases key <;> rfl
  simp only [ledgerOf, Ledger.put, same, secretAt_putRecord]
  rfl

theorem ledger_putCode (codes : Codes) (loginId : String) (entry : EmployeeCodeEntry) (tally : Tally) :
    ledgerOf ((codes.putCode loginId entry).setTally (.code loginId) tally) =
      (ledgerOf codes).put (.code loginId) (secretOfCode entry) tally := by
  have same : secretAt ((codes.putCode loginId entry).setTally (.code loginId) tally) = secretAt (codes.putCode loginId entry) := by
    funext key
    cases key <;> rfl
  simp only [ledgerOf, Ledger.put, same, secretAt_putCode]
  rfl

theorem ledger_redeem (codes : Codes) (key : Key) (serial index : Nat) :
    ledgerOf (codes.redeem key serial index) =
      { ledgerOf (codes.setTally key .reset) with redeemed := codes.redeemed ++ [(serial, index)] } := by
  have same : secretAt (codes.redeem key serial index) = secretAt (codes.setTally key .reset) := by
    funext key
    cases key <;> rfl
  simp only [ledgerOf, same]
  rfl

theorem ledger_issue (codes : Codes) (key : Key) :
    ledgerOf (codes.issue key) = { ledgerOf (codes.setTally key .reset) with serial := codes.serial + 1 } := by
  have same : secretAt (codes.issue key) = secretAt (codes.setTally key .reset) := by
    funext key
    cases key <;> rfl
  simp only [ledgerOf, same]
  rfl

theorem ledger_evaluate (codes : Codes) (key : Key) (clock : Int) :
    ledgerOf (codes.evaluate key clock) = (ledgerOf codes).fail key clock := by
  have same : secretAt (codes.evaluate key clock) = secretAt codes := by
    funext key
    cases key <;> rfl
  simp only [ledgerOf, same]
  rfl

abbrev Changes (clock : Int) (codes : Codes) (attempt : Option Nat) (next : Codes) : Prop :=
  Change maxFailedAttempts clock (ledgerOf codes) attempt (ledgerOf next)

def attemptOf : Call → Option Nat
  | .savingFailure _ _ _ attempt _ | .savingCodeFailure _ _ attempt _ => some attempt
  | _ => none

def Asserted (shared : Shared) : Call → Prop
  | .savingSetup _ record => record.failedAttempts = 0
  | .readingRecord _ _ _ nowMs _ | .readingCode _ _ nowMs _ _ => nowMs ≤ shared.clock
  | .verifying _ _ _ nowMs _ read => nowMs ≤ shared.clock ∧ locked read.lockedUntil nowMs = false
  | .savingFailure sub _ nowMs attempt read =>
    Pending (ledgerOf shared.codes) (.record sub) (secretOfRecord read) attempt ∧ locked read.lockedUntil nowMs = false
  | .savingUse _ index _ _ read => (secretOfRecord read).used[index]? = some false
  | .savingCodeFailure loginId _ attempt read =>
    Pending (ledgerOf shared.codes) (.code loginId) (secretOfCode read) attempt
  | .savingCodeUse _ _ _ _ read => read.usedAt = none
  | _ => True

structure Valid (shared : Shared) : Prop where
  sound : Sound maxFailedAttempts (ledgerOf shared.codes)
  settled : Settled shared.codes

structure Effect (shared : Shared) (call : Call) (after : Shared) (rest : Option Call) : Prop where
  changes : ∃ attempt, Changes shared.clock shared.codes attempt after.codes ∧
    ∀ number, attempt = some number → attemptOf call = some number
  settled : Settled after.codes
  clock : shared.clock ≤ after.clock
  asserted : ∀ next, rest = some next → Asserted after next
  fresh : ∀ next number, rest = some next → attemptOf next = some number → number = shared.codes.attempts

theorem Effect.still {call : Call} {rest : Option Call} (valid : Valid shared) (codes : after.codes = shared.codes)
    (clock : shared.clock ≤ after.clock) (asserted : ∀ next, rest = some next → Asserted after next ∧ attemptOf next = none) :
    Effect shared call after rest where
  changes := ⟨none, codes ▸ .still, fun _ wrong => by cases wrong⟩
  settled := codes ▸ valid.settled
  clock := clock
  asserted next same := (asserted next same).1
  fresh next number same attempt := by
    rw [(asserted next same).2] at attempt
    cases attempt

theorem Effect.last {call : Call} {attempt : Option Nat} (changes : Changes shared.clock shared.codes attempt after.codes)
    (own : ∀ number, attempt = some number → attemptOf call = some number) (settled : Settled after.codes)
    (clock : shared.clock ≤ after.clock) : Effect shared call after none where
  changes := ⟨attempt, changes, own⟩
  settled := settled
  clock := clock
  asserted _ wrong := by cases wrong
  fresh _ _ wrong := by cases wrong

theorem settled_put {codes : Codes} {sub : String} {record : RecoveryRecord} (settled : Settled codes)
    (here : record.lockedUntil ≠ none → record.failedAttempts = 0) : Settled (codes.putRecord sub record) := by
  intro other found present
  by_cases same : other = sub
  · subst same
    simp only [Codes.putRecord, Function.update_self, Option.some.injEq] at present
    exact present ▸ here
  · simp only [Codes.putRecord, Function.update_of_ne same] at present
    exact settled other found present

theorem unlocked_time {record : RecoveryRecord} {nowMs clock : Int} (open_ : locked record.lockedUntil nowMs = false)
    (later : nowMs ≤ clock) (time : Int) (lock : (secretOfRecord record).lockedUntil = some time) : time ≤ clock := by
  change record.lockedUntil = some time at lock
  have ended : time ≤ nowMs := by simpa [locked, lock] using open_
  omega

theorem verify_effect {sub password code : String} {nowMs : Int} {since : Nat} {read : RecoveryRecord} {rest : Option Call}
    (valid : Valid shared) (asserted : Asserted shared (.verifying sub password code nowMs since read))
    (unchanged : (read.unlocked nowMs).codeEntry crypto password code = none →
      shared.codes.records sub = some read ∧ (shared.codes.tally (.record sub)).waiting = none)
    (verified : verify crypto shared sub password code nowMs since read = (after, rest)) :
    Effect shared (.verifying sub password code nowMs since read) after rest := by
  obtain ⟨later, open_⟩ := asserted
  unfold verify at verified
  split at verified
  next index found =>
    cases verified
    refine .still valid rfl (Int.le_refl _) fun next same => ?_
    cases same
    refine ⟨?_, rfl⟩
    have unused := codeEntry_unused found
    rw [unlocked_used] at unused
    exact unused
  next wrong =>
    cases verified
    obtain ⟨stored, free⟩ := unchanged wrong
    have stored := stored_record stored
    have times := unlocked_time open_ later
    refine ⟨⟨none, ?_, fun _ wrong => by cases wrong⟩, valid.settled, Int.le_refl _, ?_, ?_⟩
    · change Change _ _ _ _ (ledgerOf (shared.codes.evaluate _ _))
      rw [ledger_evaluate]
      exact .fail stored times free
    · intro next same
      cases same
      refine ⟨?_, open_⟩
      change Pending (ledgerOf (shared.codes.evaluate _ _)) _ _ _
      rw [ledger_evaluate]
      exact pending_fail valid.sound stored times
    · intro next number same attempt
      cases same
      exact (Option.some.inj attempt).symm

theorem counts_fail (failedAttempts : Nat) (now : Int) :
    newLock failedAttempts now = none ∧ failedAttempts + 1 < maxFailedAttempts ∨
      newLock failedAttempts now = some (now + lockoutMs) ∧ maxFailedAttempts ≤ failedAttempts + 1 := by
  unfold newLock
  split
  next full => exact .inr ⟨rfl, full⟩
  next room => exact .inl ⟨rfl, Nat.lt_of_not_le room⟩

theorem saveFailure_effect {sub : String} {now nowMs : Int} {attempt : Nat} {read : RecoveryRecord} (valid : Valid shared)
    (asserted : Asserted shared (.savingFailure sub now nowMs attempt read)) (found : shared.codes.records sub = some read) :
    Effect shared (.savingFailure sub now nowMs attempt read) (saveFailure shared sub now nowMs read) none := by
  obtain ⟨pending, open_⟩ := asserted
  have unlocked := unlocked_eq (valid.settled sub read found) open_
  have stored := stored_record found
  refine .last ?_ (fun number (same : some attempt = some number) => same) ?_ (Int.le_refl _)
  · change Change _ _ _ _ (ledgerOf ((shared.codes.putRecord sub _).setTally (.record sub) _))
    rw [ledger_putRecord, unlocked]
    obtain ⟨lock, room⟩ | ⟨lock, full⟩ := counts_fail read.failedAttempts now
    · have fails : ({ read with lockedUntil := none } : RecoveryRecord).fail now =
          { read with lockedUntil := none, failedAttempts := read.failedAttempts + 1 } := if_neg (Nat.not_le.mpr room)
      rw [fails, lock]
      exact .record pending stored (.inl ⟨rfl, rfl, room⟩)
    · have fails : ({ read with lockedUntil := none } : RecoveryRecord).fail now =
          { read with failedAttempts := 0, lockedUntil := some (now + lockoutMs) } := if_pos full
      rw [fails, lock]
      exact .record pending stored (.inr ⟨rfl, rfl, rfl⟩)
  · refine settled_put valid.settled fun lock => ?_
    unfold RecoveryRecord.fail at lock ⊢
    split at lock
    next full => rw [if_pos full]
    next => exact (lock (by rw [unlocked])).elim

theorem saveUse_effect {sub : String} {index : Nat} {nowMs : Int} {since : Nat} {read : RecoveryRecord} (valid : Valid shared)
    (unused : (secretOfRecord read).used[index]? = some false) (found : shared.codes.records sub = some read) :
    Effect shared (.savingUse sub index nowMs since read) (saveUse shared sub index nowMs read)
      (some (.savingSession sub nowMs since)) := by
  have stored := stored_record found
  have secret : secretOfRecord ((read.unlocked nowMs).use index nowMs) =
      { secretOfRecord read with
        used := (secretOfRecord read).used.set index true, failedAttempts := 0, lockedUntil := none } := by
    rw [secret_use, unlocked_used]
    simp only [secretOfRecord, unlocked_serial]
  refine ⟨⟨none, ?_, fun _ wrong => by cases wrong⟩, ?_, Int.le_refl _, ?_, ?_⟩
  · change Change _ _ _ _ (ledgerOf ((shared.codes.putRecord sub _).redeem (.record sub) read.serial index))
    rw [ledger_redeem, ledger_putRecord, secret]
    exact .redeem stored unused
  · exact settled_put valid.settled fun lock => (lock rfl).elim
  · intro next same
    cases same
    trivial
  · intro next number same attempt
    cases same
    cases attempt

theorem saveSetup_effect {sub : String} {record : RecoveryRecord} (valid : Valid shared) (clean : record.failedAttempts = 0) :
    Effect shared (.savingSetup sub record) (saveSetup shared sub record) none := by
  refine .last ?_ (fun _ (wrong : none = some _) => (by cases wrong)) ?_ (Int.le_refl _)
  · change Change _ _ _ _ (ledgerOf ((shared.codes.putRecord sub _).issue (.record sub)))
    rw [ledger_issue, ledger_putRecord]
    exact .issue rfl clean
  · exact settled_put valid.settled fun _ => clean

theorem saveIssue_effect {loginId sub code : String} {nowMs : Int} (valid : Valid shared) :
    Effect shared (.issuing loginId sub nowMs) (saveIssue crypto shared loginId sub code nowMs) none := by
  refine .last ?_ (fun _ (wrong : none = some _) => (by cases wrong)) valid.settled (Int.le_refl _)
  change Change _ _ _ _ (ledgerOf ((shared.codes.putCode loginId _).issue (.code loginId)))
  rw [ledger_issue, ledger_putCode]
  exact .issue rfl rfl

theorem readCode_effect {loginId code : String} {nowMs : Int} {session : BreakGlassSession} {since : Nat} {rest : Option Call}
    (valid : Valid shared) (later : nowMs ≤ shared.clock)
    (unchanged : Unchanged crypto shared (.readingCode loginId code nowMs session since) .next)
    (moved : readCode crypto shared loginId code nowMs session since = (after, rest)) :
    Effect shared (.readingCode loginId code nowMs session since) after rest := by
  unfold readCode at moved
  split at moved
  next =>
    cases moved
    exact .still valid rfl (Int.le_refl _) fun _ wrong => by cases wrong
  next entry found =>
    split at moved
    next =>
      cases moved
      exact .still valid rfl (Int.le_refl _) fun _ wrong => by cases wrong
    next open_ =>
      split at moved
      next opens =>
        cases moved
        refine .still valid rfl (Int.le_refl _) fun next same => ?_
        cases same
        refine ⟨?_, rfl⟩
        simp only [EmployeeCodeEntry.opens, Bool.and_eq_true, decide_eq_true_eq] at opens
        exact opens.1.2
      next closed =>
        cases moved
        have free : (shared.codes.tally (.code loginId)).waiting = none := by
          apply unchanged
          rw [found]
          simp only [Option.any_some, Bool.and_eq_true, Bool.not_eq_true']
          exact ⟨Bool.eq_false_iff.mpr open_, Bool.eq_false_iff.mpr closed⟩
        have stored := stored_code found
        have times (time : Int) (lock : (secretOfCode entry).lockedUntil = some time) : time ≤ shared.clock := by
          change entry.lockedUntil = some time at lock
          have ended : time ≤ nowMs := by simpa [locked, lock] using open_
          omega
        refine ⟨⟨none, ?_, fun _ wrong => by cases wrong⟩, valid.settled, Int.le_refl _, ?_, ?_⟩
        · change Change _ _ _ _ (ledgerOf (shared.codes.evaluate _ _))
          rw [ledger_evaluate]
          exact .fail stored times free
        · intro next same
          cases same
          change Pending (ledgerOf (shared.codes.evaluate _ _)) _ _ _
          rw [ledger_evaluate]
          exact pending_fail valid.sound stored times
        · intro next number same attempt
          cases same
          exact (Option.some.inj attempt).symm

theorem saveCodeFailure_effect {loginId : String} {nowMs : Int} {attempt : Nat} {read : EmployeeCodeEntry} (valid : Valid shared)
    (pending : Pending (ledgerOf shared.codes) (.code loginId) (secretOfCode read) attempt)
    (found : shared.codes.employeeCodes loginId = some read) :
    Effect shared (.savingCodeFailure loginId nowMs attempt read) (saveCodeFailure shared loginId nowMs read) none := by
  have stored := stored_code found
  refine .last ?_ (fun number (same : some attempt = some number) => same) valid.settled (Int.le_refl _)
  change Change _ _ _ _ (ledgerOf ((shared.codes.putCode loginId _).setTally (.code loginId) _))
  rw [ledger_putCode]
  obtain ⟨lock, room⟩ | ⟨lock, full⟩ := counts_fail read.failedAttempts nowMs
  · have fails : read.fail nowMs = { read with failedAttempts := read.failedAttempts + 1 } := if_neg (Nat.not_le.mpr room)
    rw [fails, lock]
    exact .record pending stored (.inl ⟨rfl, rfl, room⟩)
  · have fails : read.fail nowMs = { read with failedAttempts := 0, lockedUntil := some (nowMs + lockoutMs) } := if_pos full
    rw [fails, lock]
    exact .record pending stored (.inr ⟨rfl, rfl, rfl⟩)

theorem saveCodeUse_effect {loginId : String} {nowMs : Int} {session : BreakGlassSession} {since : Nat} {read : EmployeeCodeEntry}
    (valid : Valid shared) (unused : read.usedAt = none) (found : shared.codes.employeeCodes loginId = some read) :
    Effect shared (.savingCodeUse loginId nowMs session since read) (saveCodeUse shared loginId nowMs read)
      (some (.auditing read.sub .localUser session.expiresAt since)) := by
  refine ⟨⟨none, ?_, fun _ wrong => by cases wrong⟩, valid.settled, Int.le_refl _, ?_, ?_⟩
  · change Change _ _ _ _ (ledgerOf ((shared.codes.putCode loginId _).redeem (.code loginId) read.serial 0))
    rw [ledger_redeem, ledger_putCode]
    refine @Change.redeem _ _ _ _ _ _ _ 0 _ (stored_code found) ?_
    simp [secretOfCode, unused]
  · intro next same
    cases same
    trivial
  · intro next number same attempt
    cases same
    cases attempt

theorem enable_effect {sub password code : String} {ip : Option String} {state : AppServer.Events.InstallationState} {rest : Option Call}
    (valid : Valid shared) (moved : enable shared sub password code ip state = (after, rest)) :
    Effect shared (.enable sub password code ip) after rest := by
  have checked (ip : String) : (shared.check ip).1.codes = shared.codes ∧ (shared.check ip).1.clock = shared.clock := by
    unfold Shared.check
    simp only
    split <;> exact ⟨rfl, rfl⟩
  unfold enable at moved
  split at moved
  next =>
    cases moved
    exact .still valid rfl (Int.le_refl _) fun _ wrong => by cases wrong
  next =>
    have limited : (ip.elim (shared, true) shared.check).1.codes = shared.codes ∧
        (ip.elim (shared, true) shared.check).1.clock = shared.clock := by
      cases ip with
      | none => exact ⟨rfl, rfl⟩
      | some ip => exact checked ip
    simp only at moved
    split at moved
    next =>
      cases moved
      refine .still valid limited.1 (Int.le_of_eq limited.2.symm) fun next same => ?_
      cases same
      exact ⟨Int.le_refl _, rfl⟩
    next =>
      cases moved
      exact .still valid limited.1 (Int.le_of_eq limited.2.symm) fun _ wrong => by cases wrong

theorem readRecord_asserted {sub password code : String} {nowMs : Int} {since : Nat} {next : Call} (later : nowMs ≤ shared.clock)
    (read : readRecord shared sub password code nowMs since = some next) : Asserted shared next ∧ attemptOf next = none := by
  unfold readRecord at read
  split at read
  next => cases read
  next record found =>
    split at read
    next => cases read
    next open_ =>
      cases read
      exact ⟨⟨later, Bool.eq_false_iff.mpr open_⟩, rfl⟩

theorem afterSession_asserted {goal : Goal} {session : Option BreakGlassSession} {since : Nat} {next : Call}
    (same : afterSession shared goal session since = some next) : Asserted after next ∧ attemptOf next = none ∨
      (∃ loginId code found, next = .readingCode loginId code shared.clock found since) := by
  unfold afterSession at same
  split at same
  next => cases same
  next => cases same
  next =>
    split at same
    · cases same
    · cases same
      exact .inl ⟨trivial, rfl⟩
  next => cases same
  next => cases same
  next => cases same
  next =>
    cases same
    exact .inl ⟨trivial, rfl⟩
  next =>
    cases same
    exact .inl ⟨trivial, rfl⟩
  next =>
    cases same
    exact .inr ⟨_, _, _, rfl⟩

theorem goal_asserted {goal : Goal} {session : Option BreakGlassSession} {since : Nat} {next : Call}
    (later : shared.clock ≤ after.clock) (same : afterSession shared goal session since = some next) :
    Asserted after next ∧ attemptOf next = none := by
  obtain plain | ⟨_, _, _, rfl⟩ := afterSession_asserted same
  · exact plain
  · exact ⟨later, rfl⟩

theorem checkSession_asserted {goal : Goal} {read : Option BreakGlassSession} {since : Nat} {next : Call}
    (same : checkSession shared goal read since = some next) : Asserted shared next ∧ attemptOf next = none := by
  unfold checkSession at same
  split at same
  next =>
    split at same
    · cases same
      exact ⟨trivial, rfl⟩
    · exact goal_asserted (Int.le_refl _) same
  next => exact goal_asserted (Int.le_refl _) same

theorem advance_effect {call : Call} {move : Move} {rest : Option Call} (valid : Valid shared) (asserted : Asserted shared call)
    (unchanged : Unchanged crypto shared call move) (moved : advance crypto shared call move = some (after, rest)) :
    Effect shared call after rest := by
  unfold advance at moved
  split at moved
  next =>
    cases moved
    refine .still valid rfl (Int.le_refl _) fun next same => ?_
    cases same
    exact ⟨trivial, rfl⟩
  next =>
    cases moved
    exact .still valid rfl (Int.le_refl _) fun next same => checkSession_asserted same
  next =>
    cases moved
    exact .still valid rfl (Int.le_refl _) fun next same => goal_asserted (Int.le_refl _) same
  next =>
    split at moved
    · cases moved
      refine .still valid rfl (Int.le_refl _) fun next same => ?_
      cases same
      exact ⟨rfl, rfl⟩
    · cases moved
  next =>
    cases moved
    exact saveSetup_effect valid asserted
  next => exact enable_effect valid (Option.some.inj moved)
  next =>
    cases moved
    exact .still valid rfl (Int.le_refl _) fun next same => readRecord_asserted asserted same
  next => exact verify_effect valid asserted unchanged (Option.some.inj moved)
  next =>
    cases moved
    exact saveFailure_effect valid asserted unchanged
  next =>
    cases moved
    exact saveUse_effect valid asserted unchanged
  next =>
    cases moved
    refine .still valid rfl (Int.le_refl _) fun next same => ?_
    cases same
    exact ⟨trivial, rfl⟩
  next =>
    cases moved
    exact .still valid rfl (Int.le_refl _) fun _ wrong => by cases wrong
  next =>
    cases moved
    exact .still valid rfl (Int.le_refl _) fun _ wrong => by cases wrong
  next =>
    cases moved
    refine .still valid rfl (Int.le_refl _) fun next same => ?_
    cases same
    exact ⟨trivial, rfl⟩
  next =>
    cases moved
    exact .still valid rfl (Int.le_refl _) fun _ wrong => by cases wrong
  next =>
    cases moved
    exact saveIssue_effect valid
  next => exact readCode_effect valid asserted unchanged (Option.some.inj moved)
  next =>
    cases moved
    exact saveCodeFailure_effect valid asserted unchanged
  next =>
    cases moved
    exact saveCodeUse_effect valid asserted unchanged
  next milliseconds =>
    cases moved
    refine .still valid rfl ?_ fun _ wrong => by cases wrong
    change shared.clock ≤ shared.clock + milliseconds
    omega
  next => cases moved

def Apart (call other : Call) : Prop := ∀ number, attemptOf call = some number → attemptOf other ≠ some number

theorem Asserted.kept {call other : Call} {rest : Option Call} (effect : Effect shared call after rest)
    (sound : Sound maxFailedAttempts (ledgerOf shared.codes)) (held : Asserted shared other) (apart : Apart call other) :
    Asserted after other := by
  obtain ⟨attempt, changes, own⟩ := effect.changes
  have foreign (number : Nat) (mine : attemptOf other = some number) : attempt ≠ some number :=
    fun same => apart number (own number same) mine
  cases other with
  | readingRecord | readingCode => exact Int.le_trans held effect.clock
  | verifying => exact ⟨Int.le_trans held.1 effect.clock, held.2⟩
  | savingFailure sub now nowMs number read => exact ⟨held.1.kept sound changes (foreign number rfl), held.2⟩
  | savingCodeFailure loginId nowMs number read => exact Pending.kept sound held changes (foreign number rfl)
  | savingSetup | savingUse | savingCodeUse => exact held
  | current | checking | expired | hashing | enable | savingSession | auditing | renewing | disable | disabling | issuing | tick =>
    trivial

theorem Asserted.attempt {call : Call} {number : Nat} (held : Asserted shared call) (own : attemptOf call = some number) :
    number < shared.codes.attempts := by
  cases call with
  | savingFailure sub now nowMs attempt read =>
    cases own
    exact held.1.number
  | savingCodeFailure loginId nowMs attempt read =>
    cases own
    exact Pending.number held
  | _ => cases own

def outline : Outline Shared Call := ⟨Valid, Asserted, Apart, fun shared after => shared.clock ≤ after.clock⟩

def untouched (crypto : Crypto) : System Shared Call Move := service crypto (Unchanged crypto)

theorem outline_sound (crypto : Crypto) : outline.Sound (untouched crypto) where
  refl _ := Int.le_refl _
  trans := Int.le_trans
  symm apart number mine own := apart number own mine
  starts {shared call} _ started := by
    have none : attemptOf call = none ∧ Asserted shared call := by
      cases call <;> first | exact ⟨rfl, trivial⟩ | exact started.elim
    refine ⟨none.2, fun _ _ number own => ?_⟩
    rw [none.1] at own
    cases own
  advances {shared call move after rest} valid asserted permitted moved := by
    have effect := advance_effect valid asserted permitted moved
    obtain ⟨_, changes, _⟩ := effect.changes
    have positive : 0 < maxFailedAttempts := by decide
    refine ⟨⟨changes.sound positive valid.sound, effect.settled⟩, effect.clock, fun next same => ⟨effect.asserted next same, ?_⟩⟩
    intro other held _ number own mine
    have fresh := effect.fresh next number same own
    have older := held.attempt mine
    omega
  stable valid asserted permitted moved held apart :=
    held.kept (advance_effect valid asserted permitted moved) valid.sound apart

theorem Valid.initial (clock : Int) : Valid (.initial clock) := by
  have nothing (key : Key) : (ledgerOf (Shared.initial clock).codes).secret key = none := by
    cases key <;> rfl
  have found (key : Key) (secret : Secret) (wrong : (ledgerOf (Shared.initial clock).codes).secret key = some secret) : False := by
    rw [nothing] at wrong
    cases wrong
  refine ⟨⟨?_, ?_, ?_, List.nodup_nil, ?_, ?_⟩, ?_⟩
  · exact fun key secret wrong => (found key secret wrong).elim
  · exact fun key _ first _ wrong => (found key first wrong).elim
  · intro pair member
    cases member
  · exact fun key secret _ wrong => (found key secret wrong).elim
  · intro key
    rw [nothing]
    refine ⟨Nat.zero_le _, ?_, ?_, ?_⟩
    all_goals
      intro secret
      intros
      contradiction
  · intro sub record present
    cases present

/-- In a run where rows are written as they were read, codes open once and failures are counted. -/
theorem one_time (crypto : Crypto) (clock : Int) {world : World Shared Call}
    (run : Run (untouched crypto) ⟨.initial clock, []⟩ world) : OneTime world.shared.codes := by
  have holds : outline.Holds world :=
    ((Outline.Holds.start (Valid.initial clock) : outline.Holds _).run (outline_sound crypto) run).1
  have sound := holds.shared.sound
  exact ⟨sound.once, sound.used, fun key => (sound.counted key).most⟩

def anyhow (crypto : Crypto) : System Shared Call Move := service crypto fun _ _ _ => True

/-- Hashes that are the texts themselves. -/
def plain : Crypto := ⟨id, fun password _ => password, fun hash password => hash = password⟩

instance (shared : Shared) (call : Call) (move : Move) : Decidable (Unchanged plain shared call move) := by
  unfold Unchanged
  split <;> infer_instance

instance (shared : Shared) (call : Call) : Decidable ((untouched plain).starts shared call) :=
  inferInstanceAs (Decidable (starts shared call))

instance (shared : Shared) (call : Call) (move : Move) : Decidable ((untouched plain).permits shared call move) :=
  inferInstanceAs (Decidable (Unchanged plain shared call move))

instance (shared : Shared) (call : Call) : Decidable ((anyhow plain).starts shared call) :=
  inferInstanceAs (Decidable (starts shared call))

instance (shared : Shared) (call : Call) (move : Move) : Decidable ((anyhow plain).permits shared call move) := isTrue trivial

def start : World Shared Call := ⟨.initial 0, []⟩

def password : String := "recover-me-2026!"

def setUp : List (Turn Call Move) :=
  [.start (.current (.setup "admin" password)), .advance 0 .next, .advance 0 .next,
    .advance 0 (.draw ["a", "b", "c", "d", "e", "f", "g", "h"] "salt"), .advance 0 .next]

def enabling (index : Nat) (code : String) : List (Turn Call Move) :=
  [.start (.enable "admin" password code none), .advance index (.state .enabled), .advance index .next]

def oneAfterAnother : Option (World Shared Call) :=
  start.play (untouched plain) <|
    setUp ++ enabling 1 "x" ++ [.advance 1 .next, .advance 1 .next] ++ enabling 2 "a" ++ [.advance 2 .next, .advance 2 .next]

/-- Two calls with one code that have both read the record when it is written. -/
def atOnce : Option (World Shared Call) :=
  start.play (anyhow plain) <|
    setUp ++ enabling 1 "a" ++ enabling 2 "a" ++
      [.advance 1 .next, .advance 2 .next, .advance 1 .next, .advance 2 .next]

theorem one_time_after_another : ∃ world : World Shared Call, Run (untouched plain) start world ∧
    world.shared.codes.redeemed = [(0, 0)] ∧ OneTime world.shared.codes := by
  obtain ⟨world, played⟩ : ∃ world, oneAfterAnother = some world := Option.isSome_iff_exists.mp (by decide +kernel)
  have run : Run (untouched plain) start world := World.run_of_play _ played
  refine ⟨world, run, ?_, one_time plain 0 run⟩
  cases played
  rfl

theorem opened_twice : ¬ ∀ (crypto : Crypto) (clock : Int) (world : World Shared Call),
    Run (anyhow crypto) ⟨.initial clock, []⟩ world → OneTime world.shared.codes := by
  intro once
  obtain ⟨world, played⟩ : ∃ world, atOnce = some world := Option.isSome_iff_exists.mp (by decide +kernel)
  have run : Run (anyhow plain) start world := World.run_of_play _ played
  have same := (once plain 0 world run).once
  cases played
  exact absurd same (by decide +kernel)

end AgentSaas.Proofs.RecoveryCodes
