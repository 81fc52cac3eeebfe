import Mathlib.Data.List.Nodup
import Mathlib.Logic.Function.Basic

/-! Secrets with codes that open once and attempts that are counted. A secret is written as a
whole; an attempt that failed is written down some time after it was evaluated. -/

namespace AgentSaas.OneTimeCodes

/-- The failed attempts since the last success, issue or end of a lock, the lock that has not
ended, and the last attempt that failed where it is not written down. -/
structure Tally where
  failures : Nat
  lockedUntil : Option Int
  waiting : Option Nat
  deriving DecidableEq

namespace Tally

def reset : Tally := ⟨0, none, none⟩

def fail (tally : Tally) (clock : Int) (attempt : Nat) : Tally :=
  let before := if tally.lockedUntil.any (· ≤ clock) then reset else tally
  { before with failures := before.failures + 1, waiting := some attempt }

def saved (tally : Tally) (lock : Option Int) : Tally := { tally with lockedUntil := lock, waiting := none }

end Tally

/-- The number of the issue, and for each code whether it was used. -/
structure Secret where
  serial : Nat
  used : List Bool
  failedAttempts : Nat
  lockedUntil : Option Int

structure Ledger (κ : Type) where
  secret : κ → Option Secret
  tally : κ → Tally
  serial : Nat
  attempts : Nat
  redeemed : List (Nat × Nat)

variable {κ : Type} [DecidableEq κ] {limit : Nat} {clock : Int} {ledger after : Ledger κ} {key : κ}

namespace Ledger

variable (ledger : Ledger κ)

def put (key : κ) (secret : Secret) (tally : Tally) : Ledger κ :=
  { ledger with
    secret := Function.update ledger.secret key (some secret)
    tally := Function.update ledger.tally key tally }

def fail (key : κ) (clock : Int) : Ledger κ :=
  { ledger with
    tally := Function.update ledger.tally key ((ledger.tally key).fail clock ledger.attempts)
    attempts := ledger.attempts + 1 }

def redeem (key : κ) (secret : Secret) (index : Nat) : Ledger κ :=
  { ledger.put key secret .reset with redeemed := ledger.redeemed ++ [(secret.serial, index)] }

def issue (key : κ) (secret : Secret) : Ledger κ := { ledger.put key secret .reset with serial := ledger.serial + 1 }

end Ledger

structure Counted (limit : Nat) (secret : Option Secret) (tally : Tally) : Prop where
  most : tally.failures ≤ limit
  below : ∀ found, secret = some found → found.failedAttempts < limit
  locked : ∀ found time, secret = some found → tally.lockedUntil = some time → found.lockedUntil = some time
  failures : ∀ found, secret = some found → tally.lockedUntil = none →
    tally.failures ≤ found.failedAttempts + if tally.waiting.isSome then 1 else 0

structure Sound (limit : Nat) (ledger : Ledger κ) : Prop where
  serials : ∀ key secret, ledger.secret key = some secret → secret.serial < ledger.serial
  unique : ∀ key other first second, ledger.secret key = some first → ledger.secret other = some second →
    first.serial = second.serial → key = other
  known : ∀ pair ∈ ledger.redeemed, pair.1 < ledger.serial
  once : ledger.redeemed.Nodup
  used : ∀ key secret index, ledger.secret key = some secret → (secret.serial, index) ∈ ledger.redeemed →
    secret.used[index]? = some true
  counted : ∀ key, Counted limit (ledger.secret key) (ledger.tally key)

/-- The secret is not what it was when it was read, and will not be again. -/
def Outdated (ledger : Ledger κ) (key : κ) (read : Secret) : Prop :=
  (∀ secret, ledger.secret key = some secret → secret.serial ≠ read.serial) ∨
    ∃ index, (read.serial, index) ∈ ledger.redeemed ∧ read.used[index]? ≠ some true

structure Pending (ledger : Ledger κ) (key : κ) (read : Secret) (attempt : Nat) : Prop where
  number : attempt < ledger.attempts
  known : read.serial < ledger.serial
  current : (ledger.tally key).waiting = some attempt ∧ (ledger.tally key).lockedUntil = none ∧
    ledger.secret key = some read ∨ Outdated ledger key read

inductive Change (limit : Nat) (clock : Int) (ledger : Ledger κ) : Option Nat → Ledger κ → Prop
  | still : Change limit clock ledger none ledger
  | fail {key secret} (stored : ledger.secret key = some secret) (unlocked : ∀ time, secret.lockedUntil = some time → time ≤ clock)
      (free : (ledger.tally key).waiting = none) : Change limit clock ledger none (ledger.fail key clock)
  | record {key secret attempt lock failedAttempts lockedUntil} (pending : Pending ledger key secret attempt)
      (stored : ledger.secret key = some secret)
      (counts : lock = none ∧ failedAttempts = secret.failedAttempts + 1 ∧ failedAttempts < limit ∨
        lock.isSome ∧ lockedUntil = lock ∧ failedAttempts = 0) :
      Change limit clock ledger (some attempt)
        (ledger.put key { secret with failedAttempts, lockedUntil } ((ledger.tally key).saved lock))
  | redeem {key secret index lockedUntil} (stored : ledger.secret key = some secret) (unused : secret.used[index]? = some false) :
      Change limit clock ledger none
        (ledger.redeem key { secret with used := secret.used.set index true, failedAttempts := 0, lockedUntil } index)
  | issue {key secret} (fresh : secret.serial = ledger.serial) (clean : secret.failedAttempts = 0) :
      Change limit clock ledger none (ledger.issue key secret)

omit [DecidableEq κ] in
theorem Sound.current (sound : Sound limit ledger) {read : Secret} (stored : ledger.secret key = some read) :
    ¬ Outdated ledger key read := by
  intro outdated
  obtain other | ⟨index, redeemed, unused⟩ := outdated
  · exact other read stored rfl
  · exact unused (sound.used key read index stored redeemed)

omit [DecidableEq κ] in
/-- The attempt that is written down is the one that the tally waits for. -/
theorem Pending.live (sound : Sound limit ledger) {read : Secret} {attempt : Nat} (pending : Pending ledger key read attempt)
    (stored : ledger.secret key = some read) :
    (ledger.tally key).waiting = some attempt ∧ (ledger.tally key).lockedUntil = none := by
  obtain ⟨waiting, unlocked, _⟩ := pending.current.resolve_right (sound.current stored)
  exact ⟨waiting, unlocked⟩

theorem put_secret {other : κ} (secret : Secret) (tally : Tally) :
    (ledger.put key secret tally).secret other = if other = key then some secret else ledger.secret other :=
  Function.update_apply _ _ _ _

theorem put_tally {other : κ} (secret : Secret) (tally : Tally) :
    (ledger.put key secret tally).tally other = if other = key then tally else ledger.tally other :=
  Function.update_apply _ _ _ _

theorem counted_put (sound : Sound limit ledger) {secret : Secret} {tally : Tally} (counted : Counted limit (some secret) tally) (other : κ) :
    Counted limit ((ledger.put key secret tally).secret other) ((ledger.put key secret tally).tally other) := by
  rw [put_secret, put_tally]
  split
  · exact counted
  · exact sound.counted other

theorem Sound.put (sound : Sound limit ledger) {old secret : Secret} {tally : Tally} (stored : ledger.secret key = some old)
    (serial : secret.serial = old.serial) (used : ∀ index : Nat, old.used[index]? = some true → secret.used[index]? = some true)
    (counted : Counted limit (some secret) tally) : Sound limit (ledger.put key secret tally) where
  serials other found present := by
    rw [put_secret] at present
    split at present
    · cases present
      rw [serial]
      exact sound.serials key old stored
    · exact sound.serials other found present
  unique first second one two here there same := by
    rw [put_secret] at here there
    split at here
    next isKey =>
      cases here
      split at there
      next also => exact isKey.trans also.symm
      next => exact isKey.trans (sound.unique key second old two stored there (serial.symm.trans same))
    next =>
      split at there
      next isKey =>
        cases there
        exact (sound.unique first key one old here stored (same.trans serial)).trans isKey.symm
      next => exact sound.unique first second one two here there same
  known := sound.known
  once := sound.once
  used other found index present redeemed := by
    rw [put_secret] at present
    split at present
    · cases present
      exact used index (sound.used key old index stored (serial ▸ redeemed))
    · exact sound.used other found index present redeemed
  counted := counted_put sound counted

theorem counted_fresh {secret : Secret} (positive : 0 < limit) (clean : secret.failedAttempts = 0) :
    Counted limit (some secret) .reset where
  most := Nat.zero_le _
  below found same := by
    cases same
    omega
  locked _ _ _ wrong := by cases wrong
  failures _ _ _ := Nat.zero_le _

theorem Sound.fail (sound : Sound limit ledger) {secret : Secret} (stored : ledger.secret key = some secret)
    (unlocked : ∀ time, secret.lockedUntil = some time → time ≤ clock) (free : (ledger.tally key).waiting = none) :
    Sound limit (ledger.fail key clock) := by
  have counted := sound.counted key
  rw [stored] at counted
  have below := counted.below secret rfl
  refine ⟨sound.serials, sound.unique, sound.known, sound.once, sound.used, fun other => ?_⟩
  change Counted limit (ledger.secret other) (Function.update ledger.tally key _ other)
  rw [Function.update_apply]
  split
  next same =>
    subst same
    rw [stored]
    simp only [Tally.fail]
    split
    next =>
      refine ⟨by change 0 + 1 ≤ limit; omega, counted.below, fun _ _ _ wrong => (by cases wrong), fun found same _ => ?_⟩
      cases same
      exact Nat.le_add_left _ _
    next still =>
      have none : (ledger.tally other).lockedUntil = none := by
        cases lock : (ledger.tally other).lockedUntil with
        | none => rfl
        | some time =>
          have ended := unlocked time (counted.locked secret time rfl lock)
          simp [lock, ended] at still
      have failures := counted.failures secret rfl none
      rw [free] at failures
      have failures : (ledger.tally other).failures ≤ secret.failedAttempts := failures
      refine ⟨by simp only; omega, counted.below, ?_, fun found same _ => ?_⟩
      · intro _ _ _ wrong
        cases none.symm.trans wrong
      · cases same
        exact Nat.succ_le_succ failures
  next => exact sound.counted other

theorem Sound.record (sound : Sound limit ledger) {secret : Secret} {attempt failedAttempts : Nat} {lock lockedUntil : Option Int}
    (pending : Pending ledger key secret attempt) (stored : ledger.secret key = some secret)
    (counts : lock = none ∧ failedAttempts = secret.failedAttempts + 1 ∧ failedAttempts < limit ∨
      lock.isSome ∧ lockedUntil = lock ∧ failedAttempts = 0) :
    Sound limit (ledger.put key { secret with failedAttempts, lockedUntil } ((ledger.tally key).saved lock)) := by
  have counted := sound.counted key
  rw [stored] at counted
  obtain ⟨waiting, unlocked⟩ := pending.live sound stored
  have below := counted.below secret rfl
  have failures : (ledger.tally key).failures ≤ secret.failedAttempts + 1 := by
    simpa [waiting] using counted.failures secret rfl unlocked
  refine sound.put stored rfl (fun _ used => used) ?_
  obtain ⟨rfl, rfl, under⟩ | ⟨locks, rfl, rfl⟩ := counts
  · refine ⟨counted.most, ?_, fun _ _ _ wrong => (by cases wrong), ?_⟩
    · intro found same
      cases same
      exact under
    · intro found same _
      cases same
      exact failures
  · refine ⟨counted.most, ?_, ?_, ?_⟩
    · intro found same
      cases same
      exact Nat.lt_of_le_of_lt (Nat.zero_le _) below
    · intro found time same lock
      cases same
      exact lock
    · intro found same unlocked
      change lockedUntil = none at unlocked
      rw [unlocked] at locks
      cases locks

theorem Sound.redeem (sound : Sound limit ledger) {secret : Secret} {index : Nat} {lockedUntil : Option Int}
    (stored : ledger.secret key = some secret) (unused : secret.used[index]? = some false) :
    Sound limit (ledger.redeem key { secret with used := secret.used.set index true, failedAttempts := 0, lockedUntil } index) := by
  have counted := sound.counted key
  rw [stored] at counted
  have inside : index < secret.used.length := (List.getElem?_eq_some_iff.mp unused).1
  have kept (other : Nat) (used : secret.used[other]? = some true) : (secret.used.set index true)[other]? = some true := by
    rw [List.getElem?_set_ne]
    · exact used
    · rintro rfl
      cases unused.symm.trans used
  have positive : 0 < limit := Nat.lt_of_le_of_lt (Nat.zero_le _) (counted.below secret rfl)
  have put : Sound limit (ledger.put key { secret with used := secret.used.set index true, failedAttempts := 0, lockedUntil } .reset) :=
    sound.put stored rfl kept (counted_fresh positive rfl)
  refine ⟨put.serials, put.unique, ?_, ?_, ?_, put.counted⟩
  · intro pair member
    obtain old | new := List.mem_append.mp member
    · exact sound.known pair old
    · rw [List.mem_singleton.mp new]
      exact sound.serials key secret stored
  · refine List.nodup_append.mpr ⟨sound.once, List.nodup_singleton _, ?_⟩
    intro pair old other new same
    rw [List.mem_singleton.mp new] at same
    subst same
    cases unused.symm.trans (sound.used key secret index stored old)
  · intro other found place present redeemed
    obtain old | new := List.mem_append.mp redeemed
    · exact put.used other found place present old
    · have same := List.mem_singleton.mp new
      have serial : found.serial = secret.serial := congrArg Prod.fst same
      have here : place = index := congrArg Prod.snd same
      change (ledger.put key _ .reset).secret other = _ at present
      rw [put_secret] at present
      split at present
      · cases present
        rw [here]
        exact List.getElem?_set_self inside
      next apart => exact (apart (sound.unique other key found secret present stored serial)).elim

theorem Sound.issue (sound : Sound limit ledger) {secret : Secret} (positive : 0 < limit)
    (fresh : secret.serial = ledger.serial) (clean : secret.failedAttempts = 0) : Sound limit (ledger.issue key secret) where
  serials other found present := by
    change (ledger.put key secret .reset).secret other = _ at present
    change found.serial < ledger.serial + 1
    rw [put_secret] at present
    split at present
    · cases present
      omega
    · have := sound.serials other found present
      omega
  unique first second one two here there same := by
    change (ledger.put key secret .reset).secret first = _ at here
    change (ledger.put key secret .reset).secret second = _ at there
    rw [put_secret] at here there
    split at here
    next isKey =>
      split at there
      next also => exact isKey.trans also.symm
      next =>
        cases here
        have older := sound.serials second two there
        omega
    next =>
      split at there
      next =>
        cases there
        have older := sound.serials first one here
        omega
      next => exact sound.unique first second one two here there same
  known pair member := Nat.lt_succ_of_lt (sound.known pair member)
  once := sound.once
  used other found index present redeemed := by
    change (ledger.put key secret .reset).secret other = _ at present
    rw [put_secret] at present
    split at present
    · cases present
      have older := sound.known _ redeemed
      simp only at older
      omega
    · exact sound.used other found index present redeemed
  counted := counted_put sound (counted_fresh positive clean)

theorem Change.sound (positive : 0 < limit) (sound : Sound limit ledger) {attempt : Option Nat}
    (change : Change limit clock ledger attempt after) : Sound limit after := by
  cases change with
  | still => exact sound
  | fail stored unlocked free => exact sound.fail stored unlocked free
  | record pending stored counts => exact sound.record pending stored counts
  | redeem stored unused => exact sound.redeem stored unused
  | issue fresh clean => exact sound.issue positive fresh clean

/-! A failed attempt outlasts what others do. -/

omit [DecidableEq κ] in
theorem Outdated.kept {read : Secret} (outdated : Outdated ledger key read) (known : read.serial < ledger.serial)
    (serials : ∀ found, after.secret key = some found →
      (∃ old, ledger.secret key = some old ∧ old.serial = found.serial) ∨ ledger.serial ≤ found.serial)
    (redeemed : ledger.redeemed ⊆ after.redeemed) : Outdated after key read := by
  obtain apart | ⟨index, member, unused⟩ := outdated
  · refine .inl fun found present same => ?_
    obtain ⟨old, before, serial⟩ | newer := serials found present
    · exact apart old before (serial.trans same)
    · omega
  · exact .inr ⟨index, redeemed member, unused⟩

theorem put_serials {other : κ} {old secret found : Secret} (tally : Tally) (stored : ledger.secret other = some old)
    (serial : secret.serial = old.serial) (present : (ledger.put other secret tally).secret key = some found) :
    (∃ old, ledger.secret key = some old ∧ old.serial = found.serial) ∨ ledger.serial ≤ found.serial := by
  rw [put_secret] at present
  split at present
  next same =>
    cases present
    exact .inl ⟨old, same ▸ stored, serial.symm⟩
  next => exact .inl ⟨found, present, rfl⟩

omit [DecidableEq κ] in
theorem live_kept {read : Secret} {attempt : Nat} (tally : after.tally key = ledger.tally key)
    (secret : after.secret key = ledger.secret key)
    (live : (ledger.tally key).waiting = some attempt ∧ (ledger.tally key).lockedUntil = none ∧ ledger.secret key = some read) :
    (after.tally key).waiting = some attempt ∧ (after.tally key).lockedUntil = none ∧ after.secret key = some read := by
  rw [tally, secret]
  exact live

/-- An attempt that is not written down stays pending while others are. -/
theorem Pending.kept (sound : Sound limit ledger) {read : Secret} {attempt : Nat} (pending : Pending ledger key read attempt)
    {who : Option Nat} (change : Change limit clock ledger who after) (apart : who ≠ some attempt) :
    Pending after key read attempt := by
  obtain ⟨number, known, current⟩ := pending
  cases change with
  | still => exact ⟨number, known, current⟩
  | @fail other secret stored unlocked free =>
    refine ⟨Nat.lt_succ_of_lt number, known, current.imp ?_ id⟩
    intro ⟨waiting, clear, same⟩
    have different : key ≠ other := by
      rintro rfl
      cases free.symm.trans waiting
    exact live_kept (Function.update_of_ne different _ _) rfl ⟨waiting, clear, same⟩
  | @record other secret attempt' lock failedAttempts lockedUntil pending' stored counts =>
    refine ⟨number, known, ?_⟩
    obtain ⟨waiting, clear, same⟩ | outdated := current
    · have different : key ≠ other := by
        rintro rfl
        have live := (pending'.live sound stored).1
        exact apart (live.symm.trans waiting)
      refine .inl (live_kept ?_ ?_ ⟨waiting, clear, same⟩)
      · exact Function.update_of_ne different _ _
      · exact Function.update_of_ne different _ _
    · exact .inr (outdated.kept known (fun _ => put_serials _ stored rfl) (List.Subset.refl _))
  | @redeem other secret index lockedUntil stored unused =>
    refine ⟨number, known, ?_⟩
    obtain ⟨waiting, clear, same⟩ | outdated := current
    · by_cases here : key = other
      · subst here
        cases stored.symm.trans same
        refine .inr (.inr ⟨index, List.mem_append_right _ List.mem_cons_self, ?_⟩)
        rw [unused]
        intro wrong
        cases wrong
      · refine .inl (live_kept ?_ ?_ ⟨waiting, clear, same⟩)
        · exact Function.update_of_ne here _ _
        · exact Function.update_of_ne here _ _
    · exact .inr (outdated.kept known (fun _ => put_serials .reset stored rfl) (List.subset_append_left _ _))
  | @issue other secret fresh clean =>
    refine ⟨number, Nat.lt_succ_of_lt known, ?_⟩
    have serials (found : Secret) (present : (ledger.put other secret .reset).secret key = some found) :
        (∃ old, ledger.secret key = some old ∧ old.serial = found.serial) ∨ ledger.serial ≤ found.serial := by
      rw [put_secret] at present
      split at present
      · cases present
        exact .inr (Nat.le_of_eq fresh.symm)
      · exact .inl ⟨found, present, rfl⟩
    obtain ⟨waiting, clear, same⟩ | outdated := current
    · by_cases here : key = other
      · subst here
        refine .inr (.inl fun found present => ?_)
        change (ledger.put key secret .reset).secret key = _ at present
        rw [put_secret, if_pos rfl] at present
        cases present
        omega
      · refine .inl (live_kept ?_ ?_ ⟨waiting, clear, same⟩)
        · exact Function.update_of_ne here _ _
        · exact Function.update_of_ne here _ _
    · exact .inr (outdated.kept known serials (List.Subset.refl _))

theorem pending_fail {secret : Secret} (sound : Sound limit ledger) (stored : ledger.secret key = some secret)
    (unlocked : ∀ time, secret.lockedUntil = some time → time ≤ clock) :
    Pending (ledger.fail key clock) key secret ledger.attempts := by
  refine ⟨Nat.lt_succ_self _, sound.serials key secret stored, .inl ?_⟩
  have tally : (ledger.fail key clock).tally key = (ledger.tally key).fail clock ledger.attempts :=
    Function.update_self _ _ _
  rw [tally]
  refine ⟨rfl, ?_, stored⟩
  simp only [Tally.fail]
  split
  next => rfl
  next still =>
    cases lock : (ledger.tally key).lockedUntil with
    | none => rfl
    | some time =>
      have ended := unlocked time ((sound.counted key).locked secret time stored lock)
      simp [lock, ended] at still

end AgentSaas.OneTimeCodes
