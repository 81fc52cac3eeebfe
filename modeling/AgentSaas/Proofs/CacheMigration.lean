import AgentSaas.CacheSchema.Migration
import AgentSaas.Proofs.CacheBackups

/-! A migration keeps what its owner had, without any authority. Its entries make up a backup unless
two of them have one address, or the owner has no keys. -/

namespace AgentSaas.Proofs.CacheMigration
open AgentSaas.CacheSchema JsonValues JsonReader JsonNumbers CacheTrees CacheDocuments CacheBackups
open ToolCallRepair (Text unit units)

variable {N : Type}

/-- The record is of a known family, and its key names the owner. -/
def isOwned (owner : CacheOwner) (record : LegacyCacheRecord) : Bool :=
  isKnownFamily record.key && legacyOwnerFromKey record.key = some owner

def exposes : Value N → Bool :=
  Value.fold false (fun _ => false) (fun _ => false) (fun _ => false) (fun items => items.any id)
    (fun members => members.any fun member => namesAnyCase FORBIDDEN_PROPERTY member.1 || member.2) fun _ => false

section Records

variable (numbers : Numbers N)

def envelope (record : LegacyCacheRecord) : Option (Value N) :=
  match parseCacheJson numbers record.raw CACHE_MAX_JSON_BYTES with
  | .ok (.object members) => some (.object members)
  | _ => none

def addressOf (record : LegacyCacheRecord) : Text × Text :=
  (legacyResource record.key, legacyResourceId record.key (legacyResource record.key) (envelope numbers record))

def displayOf (record : LegacyCacheRecord) : Option (Value N) :=
  match parseCacheJson numbers record.raw CACHE_MAX_JSON_BYTES with
  | .ok (.string text) => some (.object [(units "text", .string text)])
  | .ok (.object members) => some (legacyDisplayData (legacyResource record.key) (orElse (property (.object members) "data") (.object members)))
  | _ => none

def isLarge (record : LegacyCacheRecord) : Bool :=
  (displayOf numbers record).any fun data => size (canonical numbers.toText data) > CACHE_MAX_JSON_BYTES

end Records

variable {numbers : Numbers N} {owner : CacheOwner} {record : LegacyCacheRecord}

theorem exposes_array (items : List (Value N)) : exposes (.array items) = (items.map exposes).any id := Value.fold_array ..

theorem exposes_object (members : List (Text × Value N)) :
    exposes (.object members) = (members.map fun member => namesAnyCase FORBIDDEN_PROPERTY member.1 || exposes member.2).any id := by
  rw [exposes, Value.fold_object, List.any_map, List.any_map]
  rfl

theorem hidden_of_passes {value : Value N} {path : Text} {depth : Nat} (passes : Passes numbers true value path depth) :
    exposes value = false := by
  induction value using Value.induction generalizing path depth with
  | null | bool | number | string => rfl
  | other => exact absurd passes passes_other
  | array items ih =>
    rw [exposes_array, List.any_map, List.any_eq_false]
    intro item member
    obtain ⟨index, inside⟩ := List.mem_iff_getElem?.mp member
    have own := ih item member ((passes_array.mp passes).2 (item, index) (List.mk_mem_zipIdx_iff_getElem?.mpr inside))
    simp [own]
  | object members ih =>
    rw [exposes_object, List.any_map, List.any_eq_false]
    intro member inside
    obtain ⟨allowed, below⟩ := (passes_object.mp passes).2 member inside
    have own := ih member inside below
    have named : namesAnyCase FORBIDDEN_PROPERTY member.1 = false := by
      unfold checkKey at allowed
      split at allowed
      · cases allowed
      split at allowed
      · cases allowed
      next plain => simpa using plain
    simp [own, named]

theorem isComponent_orDefault (id : Text) : isComponent (orDefault id) = true := by
  unfold orDefault
  split
  next component => exact component
  · decide

theorem isComponent_keyResourceId (key resource : Text) : isComponent (keyResourceId key resource) = true := by
  unfold keyResourceId
  split
  · decide
  · exact isComponent_orDefault _

theorem isComponent_legacyResourceId (key resource : Text) (envelope : Option (Value N)) :
    isComponent (legacyResourceId key resource envelope) = true := by
  unfold legacyResourceId
  split
  · split
    next component => exact component
    · exact isComponent_keyResourceId ..
  · exact isComponent_keyResourceId ..

theorem legacyResource_cases (key : Text) :
    legacyResource key = units "sessions" ∨ legacyResource key = units "messages" ∨ legacyResource key = units "draft-metadata" := by
  unfold legacyResource
  split
  · exact .inl rfl
  · split
    · exact .inr (.inl rfl)
    · exact .inr (.inr rfl)

theorem isResource_legacy (key : Text) :
    isResource (legacyResource key) = true ∧ isResource (legacyResource key ++ units "-display") = true := by
  obtain same | same | same := legacyResource_cases key
  · rw [same]
    decide
  · rw [same]
    decide
  · rw [same]
    decide

structure Keeps (numbers : Numbers N) (record : LegacyCacheRecord) (entry : CacheEntryInput N) : Prop where
  address : address entry = addressOf numbers record
  type : entry.type = legacyResource record.key ++ units "-display"
  data : displayOf numbers record = some entry.data
  valid : validateBackupData numbers entry.resource entry.data = .ok ()

theorem valid_text (text : Text) :
    validateBackupData numbers (units "draft-metadata") (.object [(units "text", .string text)]) = .ok () := by
  refine validateBackupData_ok_iff.mpr ⟨by decide, fun outbox => absurd outbox (by decide), passes_object.mpr ⟨by omega, ?_⟩⟩
  intro member inside
  rw [List.mem_singleton.mp inside]
  exact ⟨by rfl, @passes_text N numbers (units "$") 1 true "text" text (by omega) (by decide) (by decide)⟩

theorem keeps_of_migrated {entry : CacheEntryInput N} (migrated : migrateOwned numbers record = .ok entry) : Keeps numbers record entry := by
  unfold migrateOwned at migrated
  obtain ⟨parsed, read, migrated⟩ := Outcomes.of_ok_bind migrated
  dsimp only at migrated
  split at migrated
  next text =>
    split at migrated
    next draft =>
      cases migrated
      refine ⟨?_, ?_, ?_, ?_⟩
      · rw [addressOf, envelope, read]
        rfl
      · have joined : units "draft-metadata-display" = units "draft-metadata" ++ units "-display" := by decide
        rw [draft]
        exact joined
      · rw [displayOf, read]
      · dsimp only
        rw [draft]
        exact valid_text text
    · cases migrated
  next members =>
    obtain ⟨_, migrated⟩ := check_ok_iff.mp migrated
    obtain ⟨_, valid, migrated⟩ := Outcomes.of_ok_bind migrated
    cases migrated
    refine ⟨?_, rfl, ?_, valid⟩
    · rw [addressOf, envelope, read]
      rfl
    · rw [displayOf, read]
  · cases migrated

theorem migrateRecord_cases {kept : Option (CacheEntryInput N)} (returned : migrateRecord numbers owner record = .ok kept) :
    isOwned owner record = false ∧ kept = none ∨ isOwned owner record = true ∧ ∃ entry, kept = some entry ∧ migrateOwned numbers record = .ok entry := by
  unfold migrateRecord at returned
  split at returned
  next legacyOwner known named =>
    split at returned
    · cases returned
    next own =>
      rw [ne_eq, Decidable.not_not] at own
      cases migrated : migrateOwned numbers record with
      | error failure =>
        rw [migrated] at returned
        cases returned
      | ok entry =>
        rw [migrated] at returned
        cases returned
        refine .inr ⟨?_, entry, rfl, rfl⟩
        rw [isOwned, known, named, own]
        exact decide_eq_true rfl
  next unnamed =>
    cases returned
    refine .inl ⟨?_, rfl⟩
    rw [isOwned, Bool.and_eq_false_iff, decide_eq_false_iff_not, or_iff_not_imp_left, Bool.not_eq_false]
    exact fun known named => unnamed owner known named

def Comes (numbers : Numbers N) (owner : CacheOwner) (record : LegacyCacheRecord) (entry : CacheEntryInput N) : Prop :=
  legacyOwnerFromKey record.key = some owner ∧ migrateRecord numbers owner record = .ok (some entry)

theorem Comes.keeps {entry : CacheEntryInput N} (comes : Comes numbers owner record entry) : Keeps numbers record entry := by
  obtain ⟨_, none⟩ | ⟨_, _, same, migrated⟩ := migrateRecord_cases comes.2
  · cases none
  · cases same
    exact keeps_of_migrated migrated

theorem named_of_owned (owned : isOwned owner record = true) : legacyOwnerFromKey record.key = some owner := by
  rw [isOwned, Bool.and_eq_true] at owned
  exact of_decide_eq_true owned.2

theorem migrateFrom_ok {records : List LegacyCacheRecord} {before result : CacheMigrationResult N}
    (migrated : migrateFrom numbers owner before records = .ok result) :
    (∃ entries, result.entries = before.entries ++ entries ∧ List.Forall₂ (Comes numbers owner) (records.filter (isOwned owner)) entries) ∧
      result.droppedKeys = before.droppedKeys ++ (records.filter fun record => !isOwned owner record).map (·.key) := by
  induction records generalizing before with
  | nil =>
    cases migrated
    exact ⟨⟨[], (List.append_nil _).symm, .nil⟩, (List.append_nil _).symm⟩
  | cons record rest ih =>
    obtain ⟨kept, returned, migrated⟩ := Outcomes.of_ok_bind migrated
    obtain ⟨foreign, rfl⟩ | ⟨owned, entry, rfl, _⟩ := migrateRecord_cases returned
    · obtain ⟨⟨entries, whole, each⟩, dropped⟩ := ih migrated
      refine ⟨⟨entries, whole, ?_⟩, ?_⟩
      · rw [List.filter_cons_of_neg (by simp [foreign])]
        exact each
      · rw [dropped, List.filter_cons_of_pos (by simp [foreign]), List.append_assoc]
        rfl
    · obtain ⟨⟨entries, whole, each⟩, dropped⟩ := ih migrated
      refine ⟨⟨entry :: entries, ?_, ?_⟩, ?_⟩
      · rw [whole, List.append_assoc]
        rfl
      · rw [List.filter_cons_of_pos owned]
        exact .cons ⟨named_of_owned owned, returned⟩ each
      · rw [dropped, List.filter_cons_of_neg (by simp [owned])]

/-- A backup of what only the owner had. -/
structure OwnerOnly (numbers : Numbers N) (datable : Text → Bool) (owner : CacheOwner) (exportedAt : Text) (records : List LegacyCacheRecord)
    (result : CacheMigrationResult N) : Prop where
  sources : List.Forall₂ (Comes numbers owner) (records.filter (isOwned owner)) result.entries
  dropped : result.droppedKeys = (records.filter fun record => !isOwned owner record).map (·.key)
  hidden : ∀ entry ∈ result.entries, exposes entry.data = false
  accepted : Accepted (createCacheBackup numbers datable owner result.entries exportedAt)

/-- The owner has keys and no two of its records have one address, or one of them is too long. -/
def Importable (numbers : Numbers N) (owner : CacheOwner) (records : List LegacyCacheRecord) : Prop :=
  records.filter (isOwned owner) = [] ∨ ValidOwner owner ∧
    (((records.filter (isOwned owner)).map (addressOf numbers)).Nodup ∨ ∃ record ∈ records.filter (isOwned owner), isLarge numbers record = true)

theorem Keeps.resource {entry : CacheEntryInput N} (keeps : Keeps numbers record entry) : entry.resource = legacyResource record.key :=
  (Prod.mk.inj keeps.address).1

theorem Keeps.isResource_type {entry : CacheEntryInput N} (keeps : Keeps numbers record entry) : isResource entry.type = true := by
  rw [keeps.type]
  exact (isResource_legacy record.key).2

theorem Keeps.preparable {entry : CacheEntryInput N} (keeps : Keeps numbers record entry) (valid : ValidOwner owner) :
    Preparable numbers owner entry := by
  refine ⟨keeps.isResource_type, keeps.valid, valid.tenantId, valid.userId, ?_, ?_⟩
  · rw [keeps.resource]
    exact (isResource_legacy record.key).1
  · rw [(Prod.mk.inj keeps.address).2]
    exact isComponent_legacyResourceId ..

theorem Keeps.isOversize {entry : CacheEntryInput N} (keeps : Keeps numbers record entry) : isOversize numbers entry = isLarge numbers record := by
  rw [isLarge, keeps.data]
  rfl

section Lists

variable {records : List LegacyCacheRecord} {entries : List (CacheEntryInput N)}

theorem addresses_eq (each : List.Forall₂ (Comes numbers owner) records entries) : entries.map address = records.map (addressOf numbers) := by
  induction each with
  | nil => rfl
  | cons comes _ ih => rw [List.map_cons, List.map_cons, comes.keeps.address, ih]

theorem large_iff (each : List.Forall₂ (Comes numbers owner) records entries) :
    (∃ entry ∈ entries, isOversize numbers entry = true) ↔ ∃ record ∈ records, isLarge numbers record = true := by
  induction each with
  | nil => simp
  | cons comes _ ih => rw [List.exists_mem_cons_iff, List.exists_mem_cons_iff, comes.keeps.isOversize, ih]

theorem keeps_of_mem (each : List.Forall₂ (Comes numbers owner) records entries) {entry : CacheEntryInput N} (member : entry ∈ entries) :
    ∃ record, Keeps numbers record entry := by
  induction each with
  | nil => cases member
  | @cons record _ _ _ comes _ ih =>
    cases member with
    | head => exact ⟨record, comes.keeps⟩
    | tail _ later => exact ih later

end Lists

/-- What is migrated makes up a backup exactly where it is importable. -/
theorem migration_sound_iff {datable : Text → Bool} {exportedAt : Text} {records : List LegacyCacheRecord} {result : CacheMigrationResult N}
    (dated : datable exportedAt = true) (migrated : migrateKnownLegacyCache numbers records owner = .ok result) :
    OwnerOnly numbers datable owner exportedAt records result ↔ Importable numbers owner records := by
  obtain ⟨⟨entries, whole, each⟩, dropped⟩ := migrateFrom_ok migrated
  rw [List.nil_append] at whole dropped
  rw [← whole] at each
  have hidden : ∀ entry ∈ result.entries, exposes entry.data = false := by
    intro entry member
    obtain ⟨record, keeps⟩ := keeps_of_mem each member
    exact hidden_of_passes (validateBackupData_ok_iff.mp keeps.valid).2.2
  have accepted : OwnerOnly numbers datable owner exportedAt records result ↔
      Accepted (createCacheBackup numbers datable owner result.entries exportedAt) :=
    ⟨fun sound => sound.accepted, fun accepted => ⟨each, dropped, hidden, accepted⟩⟩
  rw [accepted, Importable]
  by_cases valid : ValidOwner owner
  · have preparable : ∀ entry ∈ result.entries, Preparable numbers owner entry := by
      intro entry member
      obtain ⟨record, keeps⟩ := keeps_of_mem each member
      exact keeps.preparable valid
    rw [accepted_iff dated preparable, addresses_eq each, large_iff each]
    constructor
    · exact fun either => .inr ⟨valid, either⟩
    · rintro (none | ⟨_, either⟩)
      · rw [none]
        exact .inl List.nodup_nil
      · exact either
  · generalize records.filter (isOwned owner) = owned at each ⊢
    generalize result.entries = entries at each ⊢
    cases each with
    | nil =>
      refine iff_of_true ?_ (.inl rfl)
      exact (accepted_iff dated fun _ member => absurd member List.not_mem_nil).mpr (.inl List.nodup_nil)
    | cons comes _ =>
      refine iff_of_false (refused valid dated comes.keeps.isResource_type comes.keeps.valid) ?_
      rintro (none | ⟨named, _⟩)
      · cases none
      · exact valid named

def sampleOwner : CacheOwner := ⟨units "t", units "u"⟩

def generation (number : String) : LegacyCacheRecord := ⟨units ("sessionList:s::u=u;t=t;g=" ++ number), units "\x7b\x7d"⟩

theorem migrated_of_any {records : List LegacyCacheRecord} {wanted : CacheMigrationResult N → Bool}
    (checked : (migrateKnownLegacyCache numbers records owner).toOption.any wanted = true) :
    ∃ result, migrateKnownLegacyCache numbers records owner = .ok result ∧ wanted result = true := by
  cases migrated : migrateKnownLegacyCache numbers records owner with
  | error =>
    rw [migrated] at checked
    cases checked
  | ok result =>
    rw [migrated] at checked
    exact ⟨result, rfl, checked⟩

/-- One generation is imported. -/
theorem generation_imported : ∃ result, migrateKnownLegacyCache Whole.numbers [generation "1"] sampleOwner = .ok result ∧
    OwnerOnly Whole.numbers (fun _ => true) sampleOwner [] [generation "1"] result := by
  obtain ⟨result, migrated, _⟩ := @migrated_of_any _ Whole.numbers sampleOwner [generation "1"] (fun _ => true) (by decide +kernel)
  have owned : [generation "1"].filter (isOwned sampleOwner) = [generation "1"] := by decide +kernel
  refine ⟨result, migrated, (migration_sound_iff rfl migrated).mpr (.inr ⟨⟨by decide, by decide⟩, .inl ?_⟩)⟩
  rw [owned]
  exact List.nodup_singleton _

/-- The lists of two generations have one key. -/
theorem generations_collide : ∃ result, migrateKnownLegacyCache Whole.numbers [generation "1", generation "2"] sampleOwner = .ok result ∧
    ¬ OwnerOnly Whole.numbers (fun _ => true) sampleOwner [] [generation "1", generation "2"] result := by
  obtain ⟨result, migrated, failed⟩ := @migrated_of_any _ Whole.numbers sampleOwner [generation "1", generation "2"]
    (fun result => decide (createCacheBackup Whole.numbers (fun _ => true) sampleOwner result.entries [] = .error ⟨.duplicateEntry, none⟩))
    (by decide +kernel)
  refine ⟨result, migrated, fun sound => not_accepted ?_ (of_decide_eq_true failed ▸ sound.accepted)⟩
  exact nofun

end AgentSaas.Proofs.CacheMigration
