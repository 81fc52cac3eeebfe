import AgentSaas.Proofs.CacheRoundTrip

/-! Many backups in one backend. Whatever is restored and cleared, and for whom, an owner reads what was
last restored for that owner; and nothing is sent before the sync that belongs to the last restore. -/

namespace AgentSaas.Proofs.CacheRestores
open AgentSaas.CacheSchema JsonValues JsonReader JsonNumbers CacheTrees CacheDocuments CacheBackups CacheEntries CacheRoundTrip
open ToolCallRepair (Text units)

variable {N : Type} [DecidableEq N] {numbers : Numbers N} {datable : Text → Bool} {owner other : CacheOwner} {store : Store}
  {accepts removable : Bool} {raw : RawBackup N} {entries : List CacheBackupEntry}

omit [DecidableEq N] in
theorem stage_key {key staged : Text} (returned : stage numbers owner entries = .ok (key, staged)) : bundleKey owner = .ok key := by
  obtain ⟨_, _, returned⟩ := Outcomes.of_ok_bind returned
  obtain ⟨_, _, returned⟩ := Outcomes.of_ok_bind returned
  obtain ⟨_, _, returned⟩ := Outcomes.of_ok_bind returned
  obtain ⟨_, named, returned⟩ := Outcomes.of_ok_bind returned
  cases returned
  exact named

theorem bundleKey_inj {key : Text} (first : bundleKey owner = .ok key) (second : bundleKey other = .ok key) : owner = other := by
  have parsed := (parse_ok_iff.mpr first).symm.trans (parse_ok_iff.mpr second)
  exact congrArg ParsedCacheKey.owner (Except.ok.inj parsed)

omit [DecidableEq N] in
theorem read_congr {after : Store} (same : ∀ key, bundleKey owner = .ok key → after key = store key) :
    CacheSchema.read numbers after owner = CacheSchema.read numbers store owner := by
  unfold CacheSchema.read
  cases named : bundleKey owner with
  | error => rfl
  | ok key => simp only [bind, Except.bind, same key named]

omit [DecidableEq N] in
theorem restore_elsewhere {key : Text} (apart : bundleKey owner ≠ .ok key) :
    (restoreCacheBackup numbers datable store accepts raw owner).2 key = store key := by
  unfold restoreCacheBackup
  split
  · rfl
  next staged verified =>
    unfold atomicReplace
    cases ready : stage numbers owner staged with
    | error => rfl
    | ok found =>
      have named := stage_key ready
      cases accepts with
      | false => rfl
      | true => exact if_neg fun same : key = found.1 => apart (same ▸ named)

theorem clear_elsewhere {key : Text} (apart : bundleKey owner ≠ .ok key) : (clear store removable accepts owner).2 key = store key := by
  unfold clear
  split
  · rfl
  · split
    · rfl
    next found named =>
      split
      · exact if_neg fun same : key = found => apart (same ▸ named)
      · rfl

theorem restore_read (returned : (restoreCacheBackup numbers datable store accepts raw owner).1 = .ok entries) :
    CacheSchema.read numbers (restoreCacheBackup numbers datable store accepts raw owner).2 owner = .ok (some entries) := by
  cases found : readBackup numbers datable raw owner with
  | error =>
    rw [restoreCacheBackup, verifyCacheBackup, found] at returned
    cases returned
  | ok backup =>
    obtain ⟨_, _, states, proper⟩ := readBackup_ok_iff.mp found
    obtain ⟨_, _, _, valid⟩ := checkOwner_ok_iff.mp states.owner
    rw [proper.named] at valid
    have verified : verifyCacheBackup numbers datable raw owner = .ok backup.entries := by
      rw [verifyCacheBackup, found]
      rfl
    have kept : readStoredEntries numbers owner [] (backup.entries.map (·.toValue)) = .ok backup.entries :=
      readStoredEntries_ok_iff.mpr ⟨forall₂_map fun entry member => ⟨tells_toValue entry, proper.sound entry member⟩, proper.nodup⟩
    have checked : validateStoredEntries numbers owner (.array (backup.entries.map (·.toValue))) = .ok backup.entries := kept
    cases written : canonicalSerialize numbers (bundle numbers owner backup.entries) CACHE_MAX_BACKUP_BYTES with
    | error failure =>
      have stopped : stage numbers owner backup.entries = .error failure := by
        rw [stage, checked]
        simp only [bind, Except.bind, written]
      rw [restoreCacheBackup, verified] at returned
      simp only [atomicReplace, stopped] at returned
      cases returned
    | ok staged =>
      obtain ⟨_, _, ready⟩ := stage_ok proper.sound proper.nodup valid written
      cases accepts with
      | false =>
        rw [restoreCacheBackup, verified] at returned
        simp only [atomicReplace, ready] at returned
        cases returned
      | true =>
        obtain ⟨after, restored, read⟩ := restore_ok store verified proper.sound proper.nodup valid written
        rw [restored] at returned ⊢
        cases returned
        exact read

theorem clear_failed {failure : Failure} {after : Store} (failed : clear store removable accepts owner = (.error failure, after)) :
    after = store := by
  unfold clear at failed
  split at failed
  · cases (Prod.mk.inj failed).1
  · split at failed
    · exact (Prod.mk.inj failed).2.symm
    · split at failed
      · cases (Prod.mk.inj failed).1
      · exact (Prod.mk.inj failed).2.symm

omit [DecidableEq N] in
theorem clear_read (valid : ValidOwner owner) (cleared : (clear store true accepts owner).1 = .ok ()) :
    CacheSchema.read numbers (clear store true accepts owner).2 owner = .ok none := by
  have key := build_of_parts (⟨valid.tenantId, valid.userId, by decide, by decide⟩ : Parts owner (units "backup-bundle") (units "active"))
  have named : bundleKey owner = .ok _ := key
  cases accepts with
  | false =>
    simp [clear, named] at cleared
  | true =>
    simp only [CacheSchema.read, clear, named, bind, Except.bind, Bool.not_true, Bool.false_eq_true, if_false, if_true]
    rfl

inductive CacheCall (N : Type)
  | restore (accepts : Bool) (raw : RawBackup N) (owner : CacheOwner)
  | clear (accepts : Bool) (owner : CacheOwner)

/-- The backend, and what the calls that succeeded have left for each owner. -/
structure Backend where
  store : Store
  backups : CacheOwner → Option (List CacheBackupEntry)

def Backend.empty : Backend := ⟨fun _ => none, fun _ => none⟩

variable (numbers datable removable) in
def Backend.call (backend : Backend) : CacheCall N → Backend
  | .restore accepts raw owner =>
    match restoreCacheBackup numbers datable backend.store accepts raw owner with
    | (.ok entries, store) => ⟨store, Function.update backend.backups owner (some entries)⟩
    | (.error _, store) => ⟨store, backend.backups⟩
  | .clear accepts owner =>
    match clear backend.store removable accepts owner with
    | (.ok (), store) => ⟨store, if removable then Function.update backend.backups owner none else backend.backups⟩
    | (.error _, store) => ⟨store, backend.backups⟩

/-- Each owner reads what is left for that owner. -/
def Represents (numbers : Numbers N) (backend : Backend) : Prop :=
  ∀ owner, ValidOwner owner → CacheSchema.read numbers backend.store owner = .ok (backend.backups owner)

omit [DecidableEq N] in
theorem Represents.written {backend : Backend} (represents : Represents numbers backend) {after : Store} {left : Option (List CacheBackupEntry)}
    (elsewhere : ∀ key, bundleKey owner ≠ .ok key → after key = backend.store key)
    (here : ValidOwner owner → CacheSchema.read numbers after owner = .ok left) :
    Represents numbers ⟨after, Function.update backend.backups owner left⟩ := by
  intro other valid
  change CacheSchema.read numbers after other = .ok (Function.update backend.backups owner left other)
  by_cases same : other = owner
  · subst same
    rw [Function.update_self]
    exact here valid
  · rw [Function.update_of_ne same, ← represents other valid]
    exact read_congr fun key named => elsewhere key fun taken => same (bundleKey_inj named taken)

theorem Represents.call {backend : Backend} (represents : Represents numbers backend) (call : CacheCall N) :
    Represents numbers (backend.call numbers datable removable call) := by
  cases call with
  | restore accepts raw owner =>
    have elsewhere := fun key => @restore_elsewhere _ numbers datable owner backend.store accepts raw key
    have read := fun entries => @restore_read _ _ numbers datable owner backend.store accepts raw entries
    rw [Backend.call]
    split
    next entries store restored =>
      rw [restored] at elsewhere read
      exact represents.written elsewhere fun _ => read entries rfl
    next failure store failed =>
      rw [restore_failed failed]
      exact represents
  | clear accepts owner =>
    have elsewhere := fun key => @clear_elsewhere owner backend.store accepts removable key
    have read := fun valid => @clear_read _ numbers owner backend.store accepts valid
    rw [Backend.call]
    split
    next store cleared =>
      rw [cleared] at elsewhere
      cases removable with
      | false =>
        cases cleared
        exact represents
      | true =>
        rw [cleared] at read
        exact represents.written elsewhere fun valid => read valid rfl
    next failure store failed =>
      rw [clear_failed failed]
      exact represents

/-- The adapter is a map from owners to backups, whatever calls have come in whatever order. -/
theorem adapter_is_map (numbers : Numbers N) (datable : Text → Bool) (removable : Bool) (calls : List (CacheCall N)) :
    Represents numbers (calls.foldl (Backend.call numbers datable removable) .empty) := by
  induction calls using List.reverseRecOn with
  | nil =>
    intro owner valid
    have key := build_of_parts (⟨valid.tenantId, valid.userId, by decide, by decide⟩ : Parts owner (units "backup-bundle") (units "active"))
    have named : bundleKey owner = .ok _ := key
    simp only [List.foldl_nil, CacheSchema.read, named, bind, Except.bind]
    rfl
  | append_singleton calls call ih =>
    rw [List.foldl_append]
    exact ih.call call

inductive GateCall
  | restored
  | complete (generation : Int)
  deriving DecidableEq

def GateCall.run (state : CacheSyncGate) : GateCall → CacheSyncGate
  | .restored => markCacheRestored state
  | .complete generation => markCacheFullSyncComplete state generation

theorem syncGeneration_count (state : CacheSyncGate) (calls : List GateCall) :
    (calls.foldl GateCall.run state).syncGeneration = state.syncGeneration + calls.count .restored := by
  induction calls using List.reverseRecOn with
  | nil => simp
  | append_singleton calls call ih =>
    rw [List.foldl_append, List.count_append, List.foldl_cons, List.foldl_nil]
    cases call with
    | restored =>
      rw [GateCall.run, markCacheRestored, ih]
      simp
      omega
    | complete generation =>
      have same : (markCacheFullSyncComplete (calls.foldl GateCall.run state) generation).syncGeneration =
          (calls.foldl GateCall.run state).syncGeneration := by
        unfold markCacheFullSyncComplete
        split <;> rfl
      rw [GateCall.run, same, ih]
      simp

/-- The sync that belongs to the last restore is complete. -/
def Synced (calls : List GateCall) : Prop :=
  ∃ before after, calls = before ++ .complete (before.count .restored) :: after ∧ .restored ∉ after

theorem synced_concat {calls : List GateCall} {generation : Int} :
    Synced (calls ++ [.complete generation]) ↔ generation = calls.count .restored ∨ Synced calls := by
  constructor
  · rintro ⟨before, after, same, later⟩
    obtain ⟨rfl, last, rfl⟩ | ⟨less, rfl, earlier⟩ := Splitting.split_concat same
    · exact .inl (GateCall.complete.inj last).symm
    · exact .inr ⟨before, less, earlier, fun inside => later (List.mem_append_left _ inside)⟩
  · rintro (rfl | ⟨before, after, rfl, later⟩)
    · exact ⟨calls, [], rfl, List.not_mem_nil⟩
    · exact ⟨before, after ++ [.complete generation], by simp, by simpa using later⟩

/-- Sending is allowed exactly where nothing was restored since the gate was made open, or since the sync of the
last restore was complete. -/
theorem send_allowed_iff (requiresFullSync : Bool) (calls : List GateCall) :
    assertCacheSendAllowed (calls.foldl GateCall.run (createCacheSyncGate requiresFullSync)) = .ok () ↔
      requiresFullSync = false ∧ .restored ∉ calls ∨ Synced calls := by
  have allowed (state : CacheSyncGate) : assertCacheSendAllowed state = .ok () ↔ state.requiresFullSync = false := by
    cases flag : state.requiresFullSync <;> simp [assertCacheSendAllowed, flag]
  rw [allowed]
  induction calls using List.reverseRecOn with
  | nil => simp [Synced, createCacheSyncGate]
  | append_singleton calls call ih =>
    have generation := syncGeneration_count (createCacheSyncGate requiresFullSync) calls
    rw [List.foldl_append, List.foldl_cons, List.foldl_nil]
    cases call with
    | restored =>
      refine iff_of_false Bool.noConfusion ?_
      rintro (⟨_, absent⟩ | ⟨before, after, same, later⟩)
      · exact absent (by simp)
      · obtain ⟨_, last, _⟩ | ⟨less, rfl, _⟩ := Splitting.split_concat same
        · cases last
        · exact later (by simp)
    | complete number =>
      have count : (createCacheSyncGate requiresFullSync).syncGeneration + calls.count .restored = (calls.count .restored : Int) := Int.zero_add _
      have kept : .restored ∉ calls ++ [.complete number] ↔ .restored ∉ calls := by simp
      rw [synced_concat, kept, GateCall.run, markCacheFullSyncComplete, generation, count]
      by_cases current : number = calls.count .restored
      · refine iff_of_true ?_ (.inr (.inl current))
        cases flag : (calls.foldl GateCall.run (createCacheSyncGate requiresFullSync)).requiresFullSync <;> simp [flag, current]
      · rw [decide_eq_false current, Bool.and_false, if_neg Bool.false_ne_true]
        simpa [current] using ih

end AgentSaas.Proofs.CacheRestores
